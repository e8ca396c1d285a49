/-
  The table stream: which tables there are, and where their rows lie.

  * `TableStream.ofBytes`: the header of the stream and the place of each table.
  * `TableStream.bytesOf`, `TableStream.table`: the rows of a table.
-/
import ApiCensus.Metadata.Table

namespace ApiCensus

/-- Where the rows of a table lie in the stream. -/
structure TableExtent where
  /-- The position of the first row. -/
  offset : Nat := 0
  /-- The number of bytes of all rows. -/
  size : Nat := 0
  deriving Repr, DecidableEq, Inhabited

/-- The header of the table stream. -/
structure TableStream where
  majorVersion : Nat
  minorVersion : Nat
  /-- The tables that are there, a bit for each. -/
  valid : Nat
  /-- The tables that are sorted, a bit for each. -/
  sorted : Nat
  /-- The row counts and the widths of the columns. -/
  layout : Layout
  /-- The places of the tables, by table number. -/
  extents : Vector TableExtent TableId.count

namespace TableStream

/-- The number of bits that can mark a table as there. -/
def tableBits : Nat := 64

/-- The bit of the heap sizes that announces four more bytes after the row counts. -/
def extraDataBit : Nat := 6

/-- The row counts of the tables with numbers from `number` on, of which `left` are still to
    be looked at. The counts stand in the order of the tables; a table that the standard does
    not know ends the reading, since the width of its rows is unknown. -/
def readCounts (valid : Nat) (counts : Vector Nat TableId.count) (number : Nat) :
    Nat → Attempt Cursor (Vector Nat TableId.count)
  | 0 => pure counts
  | left + 1 => do
    if valid.testBit number then
      if h : number < TableId.count then
        let count ← Cursor.number 4
        readCounts valid (counts.set number count h) (number + 1) left
      else
        throw .unknownTable
    else
      readCounts valid counts (number + 1) left

/-- The places of the given tables, the first one starting at `offset`; a table without rows
    has none. -/
def place (layout : Layout) (size : Nat) (extents : Vector TableExtent TableId.count)
    (offset : Nat) : List TableId → Except Fault (Vector TableExtent TableId.count)
  | [] => .ok extents
  | table :: rest =>
    if layout.rowCount table = 0 then place layout size extents offset rest
    else
      let length := layout.rowCount table * layout.rowSize table
      if size < offset + length then .error .outOfBounds
      else
        place layout size
          (extents.set table.number { offset, size := length } table.number_lt)
          (offset + length) rest

/-- The header at the cursor. -/
def read : Attempt Cursor TableStream := do
  let _reserved ← Cursor.number 4
  let majorVersion ← Cursor.number 1
  let minorVersion ← Cursor.number 1
  let heapFlags ← Cursor.number 1
  let _reserved ← Cursor.number 1
  let valid ← Cursor.number 8
  let sorted ← Cursor.number 8
  if valid = 0 then
    Attempt.malformed .noTables
  else
    let rows ← readCounts valid (Vector.replicate _ 0) 0 tableBits
    if heapFlags.testBit extraDataBit then Cursor.advance 4
    let layout := Layout.ofCounts rows heapFlags
    let cursor ← get
    let extents ← Attempt.ofExcept
      (place layout cursor.data.size (Vector.replicate _ {}) cursor.pos TableId.all)
    pure { majorVersion, minorVersion, valid, sorted, layout, extents }

/-- The header at the start of the stream. -/
def ofBytes (data : ByteArray) : Except Fault TableStream :=
  read.result { data }

variable (stream : TableStream)

/-- The number of rows of a table. -/
def rowCount (table : TableId) : Nat :=
  stream.layout.rowCount table

/-- The bytes of the rows of a table, given the bytes of the stream. -/
def bytesOf (data : ByteArray) (table : TableId) : ByteArray :=
  let extent := stream.extents.get ⟨table.number, table.number_lt⟩
  if extent.offset + extent.size ≤ data.size then
    data.extract extent.offset (extent.offset + extent.size)
  else .empty

/-- The table whose rows have the given bytes; without rows if the bytes do not hold them. -/
def tableOf {α : Type} [MetadataRow α] (rows : ByteArray) : Table α :=
  match Table.ofBytes rows (stream.rowCount (MetadataRow.table α)) stream.layout with
  | .ok table => table
  | .error _ => Table.empty stream.layout

/-- A table, given the bytes of the stream. -/
def table {α : Type} [MetadataRow α] (data : ByteArray) : Table α :=
  stream.tableOf (stream.bytesOf data (MetadataRow.table α))

end TableStream

end ApiCensus
