/-
  Executable images: the container of an assembly.

  * `HeaderReader`: the reader of the headers of an image, which is a parameter of the program.
  * `Image.ofBytes`: the sections of an image and the place of its runtime header.
  * `Image.offset`: the position of a relative address.
-/
import ApiCensus.Metadata.RuntimeHeader

namespace ApiCensus

/-- The bytes of `data` from `offset` on, `length` of them. -/
def sliceOf (data : ByteArray) (offset length : Nat) : Except Fault ByteArray :=
  if offset + length ≤ data.size then .ok (data.extract offset (offset + length))
  else .error .outOfBounds

/-- A part of an image that is loaded as a whole. -/
structure Section where
  /-- The relative address of the first byte. -/
  address : Nat
  /-- The number of bytes when loaded. -/
  virtualSize : Nat
  /-- The position of the first byte in the image. -/
  dataOffset : Nat
  /-- The number of bytes in the image. -/
  dataSize : Nat
  deriving Repr, DecidableEq, Inhabited

/-- What the optional header of an image tells. -/
structure OptionalHeader where
  /-- The directory of the runtime header, if it is there. -/
  runtime : Option DataDirectory
  deriving Repr, DecidableEq, Inhabited

/-- What the headers of an image tell. -/
structure ImageHeaders where
  /-- The optional header, if there is one. -/
  optional : Option OptionalHeader
  sections : List Section
  deriving Repr, DecidableEq, Inhabited

/-- The reader of the headers of an image. It finds none where the data is no image. The format
    of executable images is its business alone: the program only asks for what it finds. -/
class HeaderReader where
  headers? : ByteArray → Option ImageHeaders

/-- An executable image. -/
structure Image where
  data : ByteArray
  sections : List Section
  /-- Where the runtime header lies. -/
  runtime : DataDirectory

namespace Image

/-- The largest number of directories of an image. -/
def maxDirectories : Nat := 16

/-- The number of the directory of the runtime header. -/
def runtimeDirectory : Nat := 14

/-- An image that holds an assembly: its headers tell where the runtime header lies. -/
def ofBytes [HeaderReader] (data : ByteArray) : Except Fault Image :=
  if data.isEmpty then .error .emptyImage
  else
    match HeaderReader.headers? data with
    | none => .error .badImage
    | some { optional := none, .. } => .error (.notAssembly .noOptionalHeader)
    | some { optional := some header, sections } =>
      match header.runtime with
      | some runtime =>
        if runtime.address = 0 ∨ runtime.size = 0 then
          .error (.notAssembly .noRuntimeHeader)
        else
          .ok { data, sections, runtime }
      | none => .error (.notAssembly .noRuntimeHeader)

/-! ## Places -/

/-- One more than the largest relative address. -/
def addressBound : Nat := 0x100000000

/-- The position of a relative address, given the sections that are still to be looked at. -/
def offsetIn (address : Nat) : List Section → Except Fault Nat
  | [] => .error (.malformed (.addressUnmapped address))
  | s :: rest =>
    if addressBound ≤ s.address + s.virtualSize then
      .error (.malformed (.sectionExtent s.address s.virtualSize))
    else if s.address ≤ address ∧ address < s.address + s.virtualSize then
      .ok (address - s.address + s.dataOffset)
    else
      offsetIn address rest

/-- The position of a relative address in the image. -/
def offset (image : Image) (address : Nat) : Except Fault Nat :=
  if addressBound ≤ address then .error (.malformed (.addressTooLarge address))
  else offsetIn address image.sections

/-- The bytes from a position on, `length` of them. -/
def slice (image : Image) (offset length : Nat) : Except Fault ByteArray :=
  sliceOf image.data offset length

end Image

end ApiCensus
