/-
  A table: the bytes of its rows and their number.

  * `Table.ofBytes`: a table, if the bytes hold all its rows.
  * `Table.get`: a row by its number; rows are numbered from 1.
  * `Table.rows`: all rows in order.
-/
import ApiCensus.Metadata.Row

namespace ApiCensus

/-- A table of rows of one kind. -/
structure Table (α : Type) where
  data : ByteArray
  count : Nat
  layout : Layout

namespace Table

variable {α : Type} [MetadataRow α]

/-- The table of the first `count` rows in a byte string. -/
def ofBytes (data : ByteArray) (count : Nat) (layout : Layout) : Except Fault (Table α) :=
  if count * layout.rowSize (MetadataRow.table α) ≤ data.size then .ok { data, count, layout }
  else .error .outOfBounds

/-- A table without rows. -/
def empty (layout : Layout) : Table α :=
  { data := .empty, count := 0, layout }

/-- The row of a given number. -/
def get (table : Table α) (rid : Nat) : Except Fault α :=
  if rid = 0 ∨ table.count < rid then
    .error (.malformed (.rowNumber rid (MetadataRow.table α) table.count))
  else
    (MetadataRow.read table.layout rid : Attempt Cursor α).result
      { data := table.data, pos := (rid - 1) * table.layout.rowSize (MetadataRow.table α) }

/-- Every row, in order. -/
def rows (table : Table α) : List (Except Fault α) :=
  (List.range table.count).map fun index => table.get (index + 1)

end Table

end ApiCensus
