/-
  Coded indexes: a table and a row in one number.

  * `CodedIndex.decode`: the tag is in the low bits, the row above it.
  * `CodedIndex.read`: a coded index as a column of a row.
  * `CodedIndex.encode`: the number that stands for the row of a token.
-/
import ApiCensus.Bytes.Cursor
import ApiCensus.Metadata.Layout

namespace ApiCensus

/-- A row of one of several tables; row 0 stands for none. -/
structure CodedIndex where
  table : TableId
  row : Nat
  deriving Repr, DecidableEq, Inhabited

namespace CodedIndex

/-- The token of the row. -/
def token (index : CodedIndex) : Token :=
  Token.ofRow index.table index.row

/-- The index points at no row. -/
def isNil (index : CodedIndex) : Bool :=
  index.row == 0

/-- The table and the row that a number stands for. -/
def decode (kind : CodedKind) (value : Nat) : Except Fault CodedIndex :=
  let tag := value % (1 <<< kind.tagBits)
  match kind.tables[tag]? with
  | some table => .ok { table, row := value >>> kind.tagBits }
  | none => .error (.malformed (.codedTag tag kind))

/-- The tag of the table of a token. The tables of another kind have the first tag, and an
    attribute constructor that is no reference is a method. -/
def tagOf (kind : CodedKind) (token : Token) : Nat :=
  match kind with
  | .customAttributeType => if token.isIn .memberRef then 3 else 2
  | _ => (kind.tables.findIdx? token.isIn).getD 0

/-- The number that stands for the row of a token. -/
def encode (kind : CodedKind) (token : Token) : Nat :=
  token.row <<< kind.tagBits + tagOf kind token

/-- The coded index at the cursor. -/
def read (layout : Layout) (kind : CodedKind) : Attempt Cursor CodedIndex := do
  let value ← Cursor.index (layout.isCodedLarge kind)
  Attempt.ofExcept (decode kind value)

end CodedIndex

end ApiCensus
