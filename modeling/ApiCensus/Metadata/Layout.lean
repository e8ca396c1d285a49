/-
  The widths of table columns.

  A column that points into a heap or a table is two or four bytes wide, as the heap sizes
  and the row counts of the module require.

  * `TableId.columns`: the columns of every table.
  * `Layout`: the row counts and the wide heaps of a module.
  * `Layout.columnBytes`, `Layout.rowSize`: the width of a column, the sum over a row.
-/
import ApiCensus.Metadata.CodedKind

namespace ApiCensus

/-- What a column of a table holds. -/
inductive Column where
  /-- A two-byte number. -/
  | short
  /-- A four-byte number. -/
  | long
  /-- An index of the string heap. -/
  | text
  /-- An index of the GUID heap. -/
  | guid
  /-- An index of the blob heap. -/
  | blob
  /-- A row of a table. -/
  | row (table : TableId)
  /-- A coded index. -/
  | coded (kind : CodedKind)
  deriving Repr, DecidableEq, Inhabited

/-- The columns of a table. -/
def TableId.columns : TableId → List Column
  | .module => [.short, .text, .guid, .guid, .guid]
  | .typeRef => [.coded .resolutionScope, .text, .text]
  | .typeDef => [.long, .text, .text, .coded .typeDefOrRef, .row .field, .row .methodDef]
  | .fieldPtr => [.row .field]
  | .field => [.short, .text, .blob]
  | .methodPtr => [.row .methodDef]
  | .methodDef => [.long, .short, .short, .text, .blob, .row .param]
  | .paramPtr => [.row .param]
  | .param => [.short, .short, .text]
  | .interfaceImpl => [.row .typeDef, .coded .typeDefOrRef]
  | .memberRef => [.coded .memberRefParent, .text, .blob]
  | .constant => [.short, .coded .hasConstant, .blob]
  | .customAttribute => [.coded .hasCustomAttribute, .coded .customAttributeType, .blob]
  | .fieldMarshal => [.coded .hasFieldMarshal, .blob]
  | .declSecurity => [.short, .coded .hasDeclSecurity, .blob]
  | .classLayout => [.short, .long, .row .typeDef]
  | .fieldLayout => [.long, .row .field]
  | .standAloneSig => [.blob]
  | .eventMap => [.row .typeDef, .row .event]
  | .eventPtr => [.row .event]
  | .event => [.short, .text, .coded .typeDefOrRef]
  | .propertyMap => [.row .typeDef, .row .property]
  | .propertyPtr => [.row .property]
  | .property => [.short, .text, .blob]
  | .methodSemantics => [.short, .row .methodDef, .coded .hasSemantics]
  | .methodImpl => [.row .typeDef, .coded .methodDefOrRef, .coded .methodDefOrRef]
  | .moduleRef => [.text]
  | .typeSpec => [.blob]
  | .implMap => [.short, .coded .memberForwarded, .text, .row .moduleRef]
  | .fieldRVA => [.long, .row .field]
  | .encLog => [.long, .long]
  | .encMap => [.long]
  | .assembly => [.long, .short, .short, .short, .short, .long, .blob, .text, .text]
  | .assemblyProcessor => [.long]
  | .assemblyOS => [.long, .long, .long]
  | .assemblyRef => [.short, .short, .short, .short, .long, .blob, .text, .text, .blob]
  | .assemblyRefProcessor => [.long, .row .assemblyRef]
  | .assemblyRefOS => [.long, .long, .long, .row .assemblyRef]
  | .file => [.long, .text, .blob]
  | .exportedType => [.long, .long, .text, .text, .coded .implementation]
  | .manifestResource => [.long, .long, .text, .coded .implementation]
  | .nestedClass => [.row .typeDef, .row .typeDef]
  | .genericParam => [.short, .short, .coded .typeOrMethodDef, .text]
  | .methodSpec => [.coded .methodDefOrRef, .blob]
  | .genericParamConstraint => [.row .genericParam, .coded .typeDefOrRef]

/-- What the widths of the columns of a module depend on. -/
structure Layout where
  /-- The row counts, by table number. -/
  rows : Vector Nat TableId.count
  /-- The string heap needs four-byte indexes. -/
  wideText : Bool
  /-- The GUID heap needs four-byte indexes. -/
  wideGuids : Bool
  /-- The blob heap needs four-byte indexes. -/
  wideBlobs : Bool
  deriving Repr, DecidableEq, Inhabited

namespace Layout

/-- The layout of a module with these row counts. The three low bits of `heapFlags` tell
    which heaps are large. -/
def ofCounts (rows : Vector Nat TableId.count) (heapFlags : Nat) : Layout where
  rows
  wideText := heapFlags.testBit 0
  wideGuids := heapFlags.testBit 1
  wideBlobs := heapFlags.testBit 2

variable (layout : Layout)

/-- The number of rows of a table. -/
def rowCount (table : TableId) : Nat :=
  layout.rows.get ⟨table.number, table.number_lt⟩

/-- The number of bits of a row number of a table. -/
def bits (table : TableId) : Nat :=
  match layout.rowCount table with
  | 0 => 1
  | count => Nat.log2 count + 1

/-- The rows of a table are more than two bytes count. -/
def isLarge (table : TableId) : Bool :=
  0xFFFF < layout.rowCount table

/-- The width of a column, given whether two bytes are too few. -/
def width (isWide : Bool) : Nat :=
  if isWide then 4 else 2

/-- The width of a row number of a table. -/
def rowBytes (table : TableId) : Nat :=
  width (16 < layout.bits table)

/-- The number of bits of a coded index: the longest row number and the tag. -/
def codedBits (kind : CodedKind) : Nat :=
  (kind.tables.map layout.bits).foldl max 0 + kind.tagBits

/-- A coded index of this kind needs four bytes. -/
def isCodedLarge (kind : CodedKind) : Bool :=
  16 < layout.codedBits kind

/-- The width of a coded index. -/
def codedBytes (kind : CodedKind) : Nat :=
  width (layout.isCodedLarge kind)

/-- The width of a column. -/
def columnBytes : Column → Nat
  | .short => 2
  | .long => 4
  | .text => width layout.wideText
  | .guid => width layout.wideGuids
  | .blob => width layout.wideBlobs
  | .row table => layout.rowBytes table
  | .coded kind => layout.codedBytes kind

/-- The width of a row of a table. -/
def rowSize (table : TableId) : Nat :=
  (table.columns.map layout.columnBytes).foldr (· + ·) 0

end Layout

end ApiCensus
