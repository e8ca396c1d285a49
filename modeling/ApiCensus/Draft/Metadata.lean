/-
  The metadata of a module that is being written.

  * `MetadataRoot.encode`: the root of given streams, with the streams behind it.
  * `ModuleDraft.metadata`: the metadata of a module.
-/
import ApiCensus.Draft.Rows
import ApiCensus.Draft.Tables
import ApiCensus.Metadata.Root

namespace ApiCensus

/-- The entry of the stream directory: its name ends with a zero byte. -/
def StreamHeader.encode (header : StreamHeader) : List UInt8 :=
  LittleEndian.encodeAll [(4, header.offset), (4, header.size)]
    ++ Alignment.padded 4 (header.name.toUTF8.data.toList ++ [0])

namespace MetadataRoot

/-- A stream: its name and its bytes. -/
abbrev NamedStream := String × List UInt8

/-- The version text that is written. -/
def writtenVersion : List UInt8 :=
  Alignment.padded 4 ("v4.0.30319".toUTF8.data.toList ++ [0])

/-- The part of the root before the directory. -/
def encodeStart (streamCount : Nat) : List UInt8 :=
  LittleEndian.encodeAll
      [(4, signature), (2, 1), (2, 1), (4, 0), (4, writtenVersion.length)]
    ++ writtenVersion ++ LittleEndian.encodeAll [(2, 0), (2, streamCount)]

/-- The directory of streams that follow one another from `offset` on. -/
def directory (offset : Nat) : List NamedStream → List StreamHeader
  | [] => []
  | (name, data) :: rest =>
    { offset, size := data.length, name } :: directory (offset + data.length) rest

/-- The number of bytes before the first stream. -/
def encodedLength (streams : List NamedStream) : Nat :=
  (encodeStart streams.length).length
    + ((directory 0 streams).flatMap StreamHeader.encode).length

/-- The root of given streams, with the streams behind it. -/
def encode (streams : List NamedStream) : List UInt8 :=
  encodeStart streams.length
    ++ (directory (encodedLength streams) streams).flatMap StreamHeader.encode
    ++ streams.flatMap Prod.snd

end MetadataRoot

namespace ModuleDraft

/-- The identifier of the module, which depends on the name alone. -/
def guid (draft : ModuleDraft) : List UInt8 :=
  [0x5C, 0x0E, 0x1A, 0x7D, 0x2B, 0x43, 0x4F, 0x19] ++ LittleEndian.encode 4 draft.name
    ++ [0x8A, 0x61, 0x90, 0x33]

/-- The large heaps, a bit each. -/
def heapFlags (draft : ModuleDraft) : Nat :=
  ApiCensus.heapFlags draft.texts.isLarge draft.blobs.isLarge

/-- The streams of the metadata, given the addresses of the bodies. -/
def streams (draft : ModuleDraft) (addresses : List Nat) : List MetadataRoot.NamedStream :=
  [("#~", TableRows.stream (draft.rows addresses) draft.heapFlags),
   ("#Strings", Alignment.padded 4 draft.texts.bytes),
   ("#GUID", draft.guid),
   ("#Blob", Alignment.padded 4 draft.blobs.bytes)]

/-- The metadata, given the addresses of the bodies. -/
def metadata (draft : ModuleDraft) (addresses : List Nat) : List UInt8 :=
  MetadataRoot.encode (draft.streams addresses)

end ModuleDraft

end ApiCensus
