/-
  The headers of executable images, as the program reads them when it runs.

  * `Image.readHeaders`: the optional header and the sections of an image.
  * `Image.checkRuntime`: what a loader reads of the runtime header and of the metadata.
  * `Image.loadableHeaders`: the reader that takes an image only if a loader gets that far.
-/
import ApiCensus.Bytes.Alignment
import ApiCensus.Image

namespace ApiCensus

/-- What is read of an optional header. -/
structure OptionalFields where
  /-- The unit in which the sections are placed in the image. -/
  fileAlignment : Nat
  /-- The places of well-known data, by their number. -/
  directories : List DataDirectory
  deriving Repr, DecidableEq, Inhabited

namespace Image

open ApiCensus.Alignment (roundDown roundUp)

/-! ## The headers -/

/-- Stops unless a condition holds. -/
def require (condition : Bool) : Attempt Cursor Unit :=
  if condition then pure () else throw .badImage

/-- The size of the oldest header, which every image starts with. -/
def dosHeaderSize : Nat := 0x40

/-- The number of bytes of a section header. -/
def sectionHeaderSize : Nat := 40

/-- The optional header at the cursor. Addresses are wide in the 64-bit format, which moves
    the fields behind them. -/
def readOptionalHeader : Attempt Cursor OptionalFields := do
  let start ← Cursor.position
  let magic ← Cursor.number 2
  require (magic == 0x10B || magic == 0x20B)
  Cursor.seek (start + 36)
  let fileAlignment ← Cursor.number 4
  Cursor.seek (start + if magic == 0x10B then 92 else 108)
  let count ← Cursor.number 4
  require (count ≤ maxDirectories)
  let directories ← Attempt.repeated RuntimeHeader.readDirectory count
  pure { fileAlignment, directories }

/-- The section header at the cursor. -/
def readSection : Attempt Cursor Section := do
  Cursor.advance 8
  let virtualSize ← Cursor.number 4
  let address ← Cursor.number 4
  let dataSize ← Cursor.number 4
  let dataOffset ← Cursor.number 4
  Cursor.advance 16
  pure { address, virtualSize, dataOffset, dataSize }

/-- The optional header, if there is one, and the sections of an image. -/
def readHeaders : Attempt Cursor (Option OptionalFields × List Section) := do
  let size := (← get).data.size
  require (dosHeaderSize ≤ size)
  require ((← Cursor.number 2) == 0x5A4D)
  Cursor.seek 0x3C
  let start ← Cursor.number 4
  require (dosHeaderSize ≤ start && start < size)
  Cursor.seek start
  require ((← Cursor.number 4) == 0x4550)
  Cursor.advance 2
  let sectionCount ← Cursor.number 2
  Cursor.advance 12
  let optionalSize ← Cursor.number 2
  Cursor.advance 2
  let optional ← if optionalSize = 0 then pure none else some <$> readOptionalHeader
  require (sectionCount ≤ size / sectionHeaderSize)
  Cursor.seek (start + 24 + optionalSize)
  let sections ← Attempt.repeated readSection sectionCount
  pure (optional, sections)

/-! ## The way to the metadata -/

/-- The size of a page in memory. -/
def pageSize : Nat := 0x1000

/-- The unit that a loader takes for the start of a section in the image. -/
def sectorSize : Nat := 0x200

/-- The number of bytes of a section that a loader reads. -/
def loadedSize (fileAlignment : Nat) (s : Section) : Nat :=
  if s.dataSize = 0 then 0
  else
    let stored := min
      (roundUp fileAlignment (s.dataOffset + s.dataSize) - roundDown sectorSize s.dataOffset)
      (roundUp pageSize s.dataSize)
    if s.virtualSize = 0 then stored else min stored (roundUp pageSize s.virtualSize)

/-- The position of a relative address in what a loader reads. -/
def loadedOffset? (fileAlignment : Nat) (sections : List Section) (address : Nat) : Option Nat :=
  (sections.find? fun s =>
    s.address ≤ address && address < s.address + loadedSize fileAlignment s).map
    fun s => address - s.address + s.dataOffset

/-- Goes to a relative address. -/
def seekLoaded (fileAlignment : Nat) (sections : List Section) (address : Nat) :
    Attempt Cursor Unit := do
  match loadedOffset? fileAlignment sections address with
  | some offset => Cursor.seek offset
  | none => throw .badImage

/-- Reads what a loader reads of the runtime header and of the metadata: the headers are
    complete, the metadata lies in the image and its version is text. -/
def checkRuntime (fileAlignment : Nat) (sections : List Section) (address : Nat) :
    Attempt Cursor Unit := do
  require (0 < fileAlignment && fileAlignment.isPowerOfTwo)
  seekLoaded fileAlignment sections address
  Cursor.advance 8
  let metadata ← RuntimeHeader.readDirectory
  Cursor.advance (RuntimeHeader.length - 16)
  seekLoaded fileAlignment sections metadata.address
  let start ← Cursor.position
  require (start + metadata.size ≤ (← get).data.size)
  Cursor.advance 12
  let versionLength ← Cursor.number 4
  let version ← Cursor.take versionLength
  require version.validateUTF8
  Cursor.advance 4

/-- The directory of the runtime header, if it says anything. -/
def runtimeOf (fields : OptionalFields) : Option DataDirectory :=
  fields.directories[runtimeDirectory]?.filter fun directory =>
    directory.address != 0 || directory.size != 0

/-- The headers of an image that a loader takes. -/
def readLoadable : Attempt Cursor ImageHeaders := do
  let (optional, sections) ← readHeaders
  match optional, optional.bind runtimeOf with
  | some fields, some runtime => checkRuntime fields.fileAlignment sections runtime.address
  | _, _ => pure ()
  pure { optional := optional.map fun fields => { runtime := runtimeOf fields }, sections }

/-- The reader that the program runs with. -/
instance loadableHeaders : HeaderReader where
  headers? data := (readLoadable.result { data }).toOption

end Image

end ApiCensus
