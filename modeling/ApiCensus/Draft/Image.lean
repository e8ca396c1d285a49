/-
  The image of a module that is being written.

  * `Image.encode`: the image of one section that starts with a runtime header.
  * `ModuleDraft.content`: the runtime header, the bodies and the metadata.
  * `ModuleDraft.image`: the whole image.
-/
import ApiCensus.Draft.Body
import ApiCensus.Draft.Metadata
import ApiCensus.Image

namespace ApiCensus

namespace Image

open ApiCensus.Alignment (roundUp)

/-- The relative address of the section. -/
def sectionAddress : Nat := 0x2000

/-- The unit of addresses of sections. -/
def sectionUnit : Nat := 0x2000

/-- The unit of positions of sections. -/
def fileUnit : Nat := 0x200

/-- The position of the header behind the oldest one. -/
def newHeaderStart : Nat := 0x80

/-- The oldest header, which has the position of the next one. -/
def encodeOldHeader : List UInt8 :=
  LittleEndian.encodeAll [(2, 0x5A4D), (0x3A, 0), (4, newHeaderStart), (0x40, 0)]

/-- The number of bytes of the optional header. -/
def optionalSize : Nat := 0xE0

/-- The file header: one section, in a library for any processor. -/
def encodeFileHeader : List UInt8 :=
  LittleEndian.encodeAll
    [(4, 0x4550), (2, 0x14C), (2, 1), (12, 0), (2, optionalSize), (2, 0x2102)]

/-- The optional header, up to the directories. -/
def encodeOptionalStart (size : Nat) : List UInt8 :=
  LittleEndian.encodeAll
    [(2, 0x10B), (1, 48), (1, 0), (4, roundUp fileUnit size), (12, 0), (4, sectionAddress), (4, 0),
     (4, 0x10000000), (4, sectionUnit), (4, fileUnit), (2, 4), (6, 0), (2, 4), (2, 0), (4, 0),
     (4, sectionAddress + roundUp sectionUnit size), (4, fileUnit), (4, 0), (2, 3), (2, 0x8540),
     (4, 0x100000), (4, 0x1000), (4, 0x100000), (4, 0x1000), (4, 0), (4, maxDirectories)]

/-- The directories, of which only that of the runtime header is there. -/
def encodeDirectories : List UInt8 :=
  LittleEndian.encodeAll
    [(8 * runtimeDirectory, 0), (4, sectionAddress), (4, RuntimeHeader.length),
     (8 * (maxDirectories - runtimeDirectory - 1), 0)]

/-- The header of the section. -/
def encodeSectionHeader (size : Nat) : List UInt8 :=
  ".text".toUTF8.data.toList ++ LittleEndian.encodeAll
    [(3, 0), (4, size), (4, sectionAddress), (4, roundUp fileUnit size), (4, fileUnit), (12, 0),
     (4, 0x60000020)]

/-- The headers of an image. -/
def encodeHeaders (size : Nat) : List UInt8 :=
  encodeOldHeader ++ encodeFileHeader ++ encodeOptionalStart size ++ encodeDirectories
    ++ encodeSectionHeader size

/-- The image of one section that starts with a runtime header. -/
def encode (content : List UInt8) : List UInt8 :=
  Alignment.padded fileUnit (encodeHeaders content.length) ++ Alignment.padded fileUnit content

end Image

namespace ModuleDraft

/-- The bodies of methods, the first one behind `position` in the section, and their addresses.
    A method without a body has address 0. -/
def placeBodies (position : Nat) : List MethodDraft → List Nat × List UInt8
  | [] => ([], [])
  | method :: rest =>
    match method.code with
    | none =>
      let (addresses, bytes) := placeBodies position rest
      (0 :: addresses, bytes)
    | some code =>
      let gap := Alignment.padding 4 position
      let start := position + gap.length
      let body := MethodBody.encode code method.catches
      let (addresses, bytes) := placeBodies (start + body.length) rest
      ((Image.sectionAddress + start) :: addresses, gap ++ body ++ bytes)

/-- The runtime header of metadata at a position in the section. -/
def runtimeHeader (position size : Nat) : RuntimeHeader where
  size := RuntimeHeader.length
  majorVersion := 2
  minorVersion := 5
  metadata := { address := Image.sectionAddress + position, size }
  flags := 1
  entryPoint := 0

/-- The section: the runtime header, the bodies and the metadata. -/
def content (draft : ModuleDraft) : List UInt8 :=
  let (addresses, bodies) := placeBodies RuntimeHeader.length draft.methods.toList
  let gap := Alignment.padding 4 (RuntimeHeader.length + bodies.length)
  let position := RuntimeHeader.length + bodies.length + gap.length
  let metadata := draft.metadata addresses
  (runtimeHeader position metadata.length).encode ++ bodies ++ gap ++ metadata

/-- The image of the module. -/
def image (draft : ModuleDraft) : ByteArray :=
  (Image.encode draft.content).toByteArray

end ModuleDraft

end ApiCensus
