/-
  The table stream of given rows.

  * `TableRows.layout`: the widths that the numbers of rows require.
  * `TableRows.stream`: the header and the rows of all tables.
-/
import ApiCensus.Bytes.Alignment
import ApiCensus.Metadata.Layout
import ApiCensus.Bytes.LittleEndian

namespace ApiCensus

/-- The values of the columns of the rows of every table. -/
abbrev TableRows := TableId → List (List Nat)

/-- The heaps that are large, a bit each. -/
def heapFlags (wideText wideBlobs : Bool) : Nat :=
  wideText.toNat + 4 * wideBlobs.toNat

namespace TableRows

variable (rows : TableRows)

/-- The number of rows of every table. -/
def counts : Vector Nat TableId.count :=
  Vector.ofFn fun number => (rows (TableId.ofNat number)).length

/-- The widths that the numbers of rows require. -/
def layout (flags : Nat) : Layout :=
  Layout.ofCounts rows.counts flags

/-- The tables that have rows, in order. -/
def present : List TableId :=
  TableId.all.filter fun table => !(rows table).isEmpty

/-- The tables that have rows, a bit each. -/
def valid : Nat :=
  rows.present.foldl (fun bits table => bits ||| (1 <<< table.number)) 0

/-- The tables that are kept sorted, a bit each. -/
def sortedTables : Nat := 0x16003301FA00

/-- The bytes of a row of a table. -/
def encodeRow (layout : Layout) (table : TableId) (row : List Nat) : List UInt8 :=
  LittleEndian.encodeAll ((table.columns.map layout.columnBytes).zip row)

/-- The header of the stream. -/
def header (flags : Nat) : List UInt8 :=
  LittleEndian.encodeAll
    ([(4, 0), (1, 2), (1, 0), (1, flags), (1, 1), (8, rows.valid), (8, sortedTables)]
      ++ rows.present.map fun table => (4, (rows table).length))

/-- The rows of all tables. -/
def body (layout : Layout) : List UInt8 :=
  rows.present.flatMap fun table => (rows table).flatMap (encodeRow layout table)

/-- The table stream. -/
def stream (flags : Nat) : List UInt8 :=
  Alignment.padded 4 (rows.header flags ++ rows.body (rows.layout flags))

end TableRows

end ApiCensus
