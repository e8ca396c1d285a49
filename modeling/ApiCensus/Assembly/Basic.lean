/-
  An opened assembly: its image, its heaps and its tables.

  * `Assembly.ofBytes`: opens an image.
  * `Assembly.table`, `Assembly.row`, `Assembly.text`, `Assembly.blob`: what it holds.
  * `Assembly.attributesOf`, `nestedTypes`, `declaringType?`, `interfacesOf`,
    `methodImplsOf`, `semanticsOf`: rows found by what they belong to.
-/
import ApiCensus.Assembly.RowIndex
import ApiCensus.Image
import ApiCensus.Metadata.Heap
import ApiCensus.Metadata.Root
import ApiCensus.Metadata.TableStream

namespace ApiCensus

/-- A run of numbers of list entries, the last one left out. -/
structure Run where
  start : Nat
  /-- The number behind the last one. -/
  stop : Nat
  deriving Repr, DecidableEq, Inhabited

namespace Run

/-- The part of a run that lies between 1 and the number behind the last entry. -/
def clamp (run : Run) (bound : Nat) : Run :=
  let start := min (max run.start 1) bound
  { start, stop := min (max run.stop start) bound }

/-- The numbers of a run, in order. -/
def toList (run : Run) : List Nat :=
  List.range' run.start (run.stop - run.start)

variable {run : Run} {bound : Nat}

/-- Whatever a run is, its part lies in the list. -/
theorem inside_clamp (hbound : 0 < bound) (run : Run) :
    1 ≤ (run.clamp bound).start ∧ (run.clamp bound).start ≤ (run.clamp bound).stop ∧
      (run.clamp bound).stop ≤ bound := by
  simp only [clamp]
  omega

theorem mem_toList {entry : Nat} : entry ∈ run.toList ↔ run.start ≤ entry ∧ entry < run.stop := by
  rw [toList, List.mem_range'_1]
  omega

end Run

/-- Rows found by what they belong to. -/
structure OwnerIndexes where
  /-- The attributes of a row of any table. -/
  attributes : RowIndex Token Nat := {}
  /-- The types directly inside a type. -/
  nested : RowIndex Nat Nat := {}
  /-- The type around a type. -/
  enclosing : Std.HashMap Nat Nat := ∅
  /-- The accessors of a property or an event. -/
  semantics : RowIndex Token Nat := {}
  /-- The interfaces of a type. -/
  interfaces : RowIndex Nat Nat := {}
  /-- The method implementations of a type. -/
  methodImpls : RowIndex Nat Nat := {}
  /-- The entries of the properties of a type. -/
  properties : Std.HashMap Nat Run := ∅
  /-- The entries of the events of a type. -/
  events : Std.HashMap Nat Run := ∅

/-- An opened assembly. -/
structure Assembly where
  image : Image
  runtime : RuntimeHeader
  root : MetadataRoot
  stream : TableStream
  /-- The bytes of the rows of each table. -/
  rowBytes : Vector ByteArray TableId.count
  strings : ByteArray
  blobs : ByteArray
  guids : ByteArray
  /-- The rows by what they belong to. -/
  owners : OwnerIndexes := {}

namespace Assembly

variable (assembly : Assembly)

/-! ## Heaps and tables -/

/-- The text at an index of the string heap. -/
def text (index : Nat) : Except Fault String :=
  Heap.text assembly.strings index

/-- The byte string at an index of the blob heap. -/
def blob (index : Nat) : Except Fault ByteArray :=
  Heap.blob assembly.blobs index

/-- The identifier at an index of the GUID heap. -/
def guid (index : Nat) : Checked Guid :=
  Heap.guid assembly.guids index

/-- The number of rows of a table. -/
def rowCount (table : TableId) : Nat :=
  assembly.stream.rowCount table

/-- The table of the rows of one kind. -/
def table (α : Type) [MetadataRow α] : Table α :=
  let id := MetadataRow.table α
  assembly.stream.tableOf (assembly.rowBytes.get ⟨id.number, id.number_lt⟩)

/-- A row by its number. -/
def row (α : Type) [MetadataRow α] (rid : Nat) : Except Fault α :=
  (assembly.table α).get rid

/-- Every row of a table, if all of them can be read. -/
def allRows (α : Type) [MetadataRow α] : Except Fault (List α) :=
  (assembly.table α).rows.mapM id

/-! ## Opening -/

/-- The number of entries that a list column counts: those of the table of entries if it is
    there, else the rows themselves. -/
def entryCount (entries members : TableId) : Nat :=
  match assembly.rowCount entries with
  | 0 => assembly.rowCount members
  | count => count

/-- The run of each owner, given the owners and the first entries in the order of the rows:
    a run ends where the next row starts. The last row of an owner counts. -/
def runsOf (bound : Nat) : List (Nat × Nat) → Std.HashMap Nat Run → Std.HashMap Nat Run
  | [], runs => runs
  | (owner, start) :: rest, runs =>
    let stop := match rest with
      | [] => bound
      | (_, next) :: _ => next
    runsOf bound rest (runs.insert owner (Run.clamp { start, stop } bound))

/-- Finds out what each row belongs to. -/
def findOwners : Except Fault OwnerIndexes := do
  let attributes ← assembly.allRows CustomAttributeRow
  let nested ← assembly.allRows NestedClassRow
  let semantics ← assembly.allRows MethodSemanticsRow
  let interfaces ← assembly.allRows InterfaceImplRow
  let methodImpls ← assembly.allRows MethodImplRow
  let properties ← assembly.allRows PropertyMapRow
  let events ← assembly.allRows EventMapRow
  pure
    { attributes := RowIndex.group (attributes.map fun row => (row.parent.token, row.rid))
      nested := RowIndex.group (nested.map fun row => (row.enclosing, row.nested))
      enclosing := nested.foldl (fun types row => types.insert row.nested row.enclosing) ∅
      semantics := RowIndex.group (semantics.map fun row => (row.association.token, row.rid))
      interfaces := RowIndex.group (interfaces.map fun row => (row.owner, row.rid))
      methodImpls := RowIndex.group (methodImpls.map fun row => (row.owner, row.rid))
      properties := runsOf (assembly.entryCount .propertyPtr .property + 1)
        (properties.map fun row => (row.parent, row.propertyList)) ∅
      events := runsOf (assembly.entryCount .eventPtr .event + 1)
        (events.map fun row => (row.parent, row.eventList)) ∅ }

/-- The bytes of a stream of the metadata at `start`; none if the image does not hold them. -/
def streamBytes (image : Image) (start : Nat) (stream : StreamHeader) : ByteArray :=
  (image.slice (start + stream.offset) stream.size).toOption.getD .empty

/-- The assembly in an image. -/
def ofImage (image : Image) : Except Fault Assembly := do
  let runtimeOffset ← image.offset image.runtime.address
  let runtime ← RuntimeHeader.ofBytes (← image.slice runtimeOffset image.runtime.size)
  let start ← image.offset runtime.metadata.address
  let root ← MetadataRoot.ofBytes (← image.slice start runtime.metadata.size)
  match (root.stream? "#~").or (root.stream? "#-"), root.stream? "#Strings" with
  | none, _ => throw (.notAssembly .noTableStream)
  | some _, none => throw (.notAssembly .noStringHeap)
  | some tables, some strings => do
    let tableBytes ← image.slice (start + tables.offset) tables.size
    let stream ← TableStream.ofBytes tableBytes
    if stream.rowCount .assembly = 0 then
      throw (.notAssembly .noAssemblyRow)
    else
      let heap (name : String) : ByteArray :=
        (root.stream? name).elim .empty (streamBytes image start)
      let assembly : Assembly :=
        { image, runtime, root, stream
          rowBytes := Vector.ofFn fun i => stream.bytesOf tableBytes (TableId.ofNat i)
          strings := streamBytes image start strings
          blobs := heap "#Blob"
          guids := heap "#GUID" }
      pure { assembly with owners := ← assembly.findOwners }

/-- Opens an image. -/
def ofBytes [HeaderReader] (data : ByteArray) : Except Fault Assembly := do
  ofImage (← Image.ofBytes data)

/-! ## Rows found by what they belong to -/

/-- The rows of given numbers, if all of them can be read. -/
def rowsOf (α : Type) [MetadataRow α] (rids : List Nat) : Except Fault (List α) :=
  rids.mapM (assembly.row α)

/-- The attributes of a row, in table order. -/
def attributesOf (parent : Token) : Except Fault (List CustomAttributeRow) :=
  assembly.rowsOf CustomAttributeRow (assembly.owners.attributes.get parent)

/-- The types directly inside a type. -/
def nestedTypes (type : Nat) : List Nat :=
  assembly.owners.nested.get type

/-- The type around a type. -/
def declaringType? (type : Nat) : Option Nat :=
  assembly.owners.enclosing[type]?

/-- The interfaces of a type. -/
def interfacesOf (type : Nat) : Except Fault (List InterfaceImplRow) :=
  assembly.rowsOf InterfaceImplRow (assembly.owners.interfaces.get type)

/-- The method implementations of a type. -/
def methodImplsOf (type : Nat) : Except Fault (List MethodImplRow) :=
  assembly.rowsOf MethodImplRow (assembly.owners.methodImpls.get type)

/-- The accessors of a property or an event. -/
def semanticsOf (association : Token) : Except Fault (List MethodSemanticsRow) :=
  assembly.rowsOf MethodSemanticsRow (assembly.owners.semantics.get association)

end Assembly

end ApiCensus
