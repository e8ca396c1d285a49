/-
  The runtime header of an image, which says where its metadata lies.

  * `RuntimeHeader`: the fields, in the order in which they are stored.
  * `RuntimeHeader.ofBytes`: the header at the start of a byte string.
  * `RuntimeHeader.encode`: the bytes of a header.
-/
import ApiCensus.Bytes.Cursor

namespace ApiCensus

/-- A place in an image: its relative address and its size. -/
structure DataDirectory where
  /-- The relative address. -/
  address : Nat := 0
  size : Nat := 0
  deriving Repr, DecidableEq, Inhabited

/-- The runtime header of an image. -/
structure RuntimeHeader where
  /-- The size that the header claims. -/
  size : Nat
  majorVersion : Nat
  minorVersion : Nat
  metadata : DataDirectory
  flags : Nat
  entryPoint : Nat
  resources : DataDirectory := {}
  strongName : DataDirectory := {}
  codeManager : DataDirectory := {}
  tableFixups : DataDirectory := {}
  exportJumps : DataDirectory := {}
  nativeHeader : DataDirectory := {}
  deriving Repr, DecidableEq, Inhabited

namespace RuntimeHeader

/-- The number of bytes of a header. -/
def length : Nat := 72

/-- The next place in a header. -/
def readDirectory : Attempt Cursor DataDirectory := do
  let address ← Cursor.number 4
  let size ← Cursor.number 4
  pure { address, size }

/-- The header at the cursor. -/
def read : Attempt Cursor RuntimeHeader := do
  let size ← Cursor.number 4
  if size < length then
    Attempt.malformed (.runtimeHeaderSize size)
  else
    let majorVersion ← Cursor.number 2
    let minorVersion ← Cursor.number 2
    let metadata ← readDirectory
    let flags ← Cursor.number 4
    let entryPoint ← Cursor.number 4
    let resources ← readDirectory
    let strongName ← readDirectory
    let codeManager ← readDirectory
    let tableFixups ← readDirectory
    let exportJumps ← readDirectory
    let nativeHeader ← readDirectory
    if metadata.address = 0 ∨ metadata.size = 0 then
      Attempt.malformed .noMetadata
    else
      pure { size, majorVersion, minorVersion, metadata, flags, entryPoint, resources,
             strongName, codeManager, tableFixups, exportJumps, nativeHeader }

/-- The header at the start of a byte string. -/
def ofBytes (data : ByteArray) : Except Fault RuntimeHeader :=
  if data.size < length then .error .outOfBounds
  else read.result { data }

/-- The fields, in the order in which they are stored. -/
def fields (header : RuntimeHeader) : List Nat :=
  [header.size, header.majorVersion, header.minorVersion, header.metadata.address,
   header.metadata.size, header.flags, header.entryPoint, header.resources.address,
   header.resources.size, header.strongName.address, header.strongName.size,
   header.codeManager.address, header.codeManager.size, header.tableFixups.address,
   header.tableFixups.size, header.exportJumps.address, header.exportJumps.size,
   header.nativeHeader.address, header.nativeHeader.size]

/-- The widths of the fields: two bytes for the versions, four for all others. -/
def widths : List Nat :=
  4 :: 2 :: 2 :: List.replicate 16 4

/-- The bytes of a header. -/
def encode (header : RuntimeHeader) : List UInt8 :=
  LittleEndian.encodeAll (widths.zip header.fields)

end RuntimeHeader

end ApiCensus
