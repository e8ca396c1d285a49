/-
  Rows found by what they belong to.

  * `Assembly.Indexed`: what belongs to what is as it is found when an image is opened.
  * `Assembly.indexed_of_ofImage`: so it is in every assembly that was opened.
  * `Assembly.findOwners_eq_ok`: then each index is made of the rows of a table, and
    `Assembly.nestedTypes_of_indexed`, `Assembly.attributesOf_of_indexed`,
    `Assembly.runs_of_indexed` find rows by a look through the table.
  * `Assembly.ofRows`, `Assembly.withOwners`: an assembly that was not opened, given by its rows.
-/
import ApiCensus.Assembly.Basic
import ApiCensus.Proofs.Attempt

namespace ApiCensus

/-! ## Rows of a table -/

namespace Table

variable {α : Type} [MetadataRow α] {table : Table α}

theorem bounds_of_get {rid : Nat} {row : α} (h : table.get rid = .ok row) :
    1 ≤ rid ∧ rid ≤ table.count := by
  by_cases hr : rid = 0 ∨ table.count < rid
  · rw [get, if_pos hr] at h
    simp at h
  · omega

theorem mem_rows {rid : Nat} {row : α} (h : table.get rid = .ok row) : .ok row ∈ table.rows := by
  have hrid := bounds_of_get h
  refine List.mem_map.2 ⟨rid - 1, List.mem_range.2 (by omega), ?_⟩
  rw [Nat.sub_add_cancel (by omega), h]

theorem get_of_mem_rows {row : α} (h : .ok row ∈ table.rows) : ∃ rid, table.get rid = .ok row := by
  obtain ⟨index, -, hi⟩ := List.mem_map.1 h
  exact ⟨index + 1, hi⟩

end Table

namespace Assembly

variable {assembly : Assembly}

/-- A row that can be read is among all rows. -/
theorem mem_of_allRows {α : Type} [MetadataRow α] {rows : List α}
    (h : assembly.allRows α = .ok rows) {rid : Nat} {row : α}
    (hrow : assembly.row α rid = .ok row) : row ∈ rows :=
  (mem_iff_of_mapM_eq_ok h row).2 ⟨.ok row, Table.mem_rows hrow, rfl⟩

/-! ## What belongs to what -/

/-- What belongs to what is as it is found when an image is opened. -/
def Indexed (assembly : Assembly) : Prop :=
  assembly.findOwners = .ok assembly.owners

theorem indexed_of_ofImage {image : Image} (h : ofImage image = .ok assembly) :
    assembly.Indexed := by
  obtain ⟨runtimeOffset, -, h⟩ := except_bind_eq_ok h
  obtain ⟨runtimeBytes, -, h⟩ := except_bind_eq_ok h
  obtain ⟨runtime, -, h⟩ := except_bind_eq_ok h
  obtain ⟨start, -, h⟩ := except_bind_eq_ok h
  obtain ⟨metadata, -, h⟩ := except_bind_eq_ok h
  obtain ⟨root, -, h⟩ := except_bind_eq_ok h
  split at h
  · cases h
  · cases h
  · obtain ⟨tables, -, h⟩ := except_bind_eq_ok h
    obtain ⟨stream, -, h⟩ := except_bind_eq_ok h
    split at h
    · cases h
    obtain ⟨owners, howners, h⟩ := except_bind_eq_ok h
    obtain rfl := Except.ok.inj h
    exact howners

/-- An assembly of given rows and heaps; an index to a row or into a heap takes two bytes. -/
def ofRows (rows : TableId → List (List UInt8)) (strings blobs : List UInt8)
    (owners : OwnerIndexes) : Assembly where
  image := { data := .empty, sections := [], runtime := {} }
  runtime :=
    { size := 0, majorVersion := 0, minorVersion := 0, metadata := {}, flags := 0, entryPoint := 0 }
  root := { majorVersion := 0, minorVersion := 0, version := "", flags := 0, streams := [] }
  stream :=
    { majorVersion := 0, minorVersion := 0, valid := 0, sorted := 0
      layout := .ofCounts (Vector.ofFn fun i => (rows (TableId.ofNat i)).length) 0
      extents := Vector.replicate _ {} }
  rowBytes := Vector.ofFn fun i => (rows (TableId.ofNat i)).flatten.toByteArray
  strings := strings.toByteArray
  blobs := blobs.toByteArray
  guids := .empty
  owners := owners

/-- The assembly with what belongs to what, as far as that can be found. -/
def withOwners (assembly : Assembly) : Assembly :=
  { assembly with owners := assembly.findOwners.toOption.getD {} }

theorem indexed_withOwners (h : assembly.findOwners.isOk = true) : assembly.withOwners.Indexed := by
  show assembly.findOwners = .ok (assembly.findOwners.toOption.getD {})
  cases hf : assembly.findOwners with
  | error fault =>
    rw [hf] at h
    cases h
  | ok owners => rfl

/-- What belongs to what is found from the rows of seven tables, all of which can be read. -/
theorem findOwners_eq_ok {owners : OwnerIndexes} (h : assembly.findOwners = .ok owners) :
    ∃ attributes nested semantics interfaces methodImpls properties events,
      (assembly.allRows CustomAttributeRow = .ok attributes ∧
        assembly.allRows NestedClassRow = .ok nested ∧
        assembly.allRows MethodSemanticsRow = .ok semantics ∧
        assembly.allRows InterfaceImplRow = .ok interfaces ∧
        assembly.allRows MethodImplRow = .ok methodImpls ∧
        assembly.allRows PropertyMapRow = .ok properties ∧
        assembly.allRows EventMapRow = .ok events) ∧
      owners =
        { attributes := RowIndex.group (attributes.map fun row => (row.parent.token, row.rid))
          nested := RowIndex.group (nested.map fun row => (row.enclosing, row.nested))
          enclosing := nested.foldl (fun types row => types.insert row.nested row.enclosing) ∅
          semantics := RowIndex.group (semantics.map fun row => (row.association.token, row.rid))
          interfaces := RowIndex.group (interfaces.map fun row => (row.owner, row.rid))
          methodImpls := RowIndex.group (methodImpls.map fun row => (row.owner, row.rid))
          properties := runsOf (assembly.entryCount .propertyPtr .property + 1)
            (properties.map fun row => (row.parent, row.propertyList)) ∅
          events := runsOf (assembly.entryCount .eventPtr .event + 1)
            (events.map fun row => (row.parent, row.eventList)) ∅ } := by
  obtain ⟨attributes, hattributes, h⟩ := except_bind_eq_ok h
  obtain ⟨nested, hnested, h⟩ := except_bind_eq_ok h
  obtain ⟨semantics, hsemantics, h⟩ := except_bind_eq_ok h
  obtain ⟨interfaces, hinterfaces, h⟩ := except_bind_eq_ok h
  obtain ⟨methodImpls, hmethodImpls, h⟩ := except_bind_eq_ok h
  obtain ⟨properties, hproperties, h⟩ := except_bind_eq_ok h
  obtain ⟨events, hevents, h⟩ := except_bind_eq_ok h
  exact ⟨attributes, nested, semantics, interfaces, methodImpls, properties, events,
    ⟨hattributes, hnested, hsemantics, hinterfaces, hmethodImpls, hproperties, hevents⟩,
    (Except.ok.inj h).symm⟩

/-- Attributes, types inside others, interfaces, implementations, properties and events are found
    by the rows of one table. -/
theorem rows_of_indexed (h : assembly.Indexed) :
    (∃ rows, assembly.allRows CustomAttributeRow = .ok rows ∧ assembly.owners.attributes =
      RowIndex.group (rows.map fun row => (row.parent.token, row.rid))) ∧
    (∃ rows, assembly.allRows NestedClassRow = .ok rows ∧
      assembly.owners.nested = RowIndex.group (rows.map fun row => (row.enclosing, row.nested)) ∧
      assembly.owners.enclosing =
        rows.foldl (fun types row => types.insert row.nested row.enclosing) ∅) ∧
    (∃ rows, assembly.allRows InterfaceImplRow = .ok rows ∧ assembly.owners.interfaces =
      RowIndex.group (rows.map fun row => (row.owner, row.rid))) ∧
    (∃ rows, assembly.allRows MethodImplRow = .ok rows ∧ assembly.owners.methodImpls =
      RowIndex.group (rows.map fun row => (row.owner, row.rid))) ∧
    (∃ rows, assembly.allRows PropertyMapRow = .ok rows ∧ assembly.owners.properties =
      runsOf (assembly.entryCount .propertyPtr .property + 1)
        (rows.map fun row => (row.parent, row.propertyList)) ∅) ∧
    ∃ rows, assembly.allRows EventMapRow = .ok rows ∧ assembly.owners.events =
      runsOf (assembly.entryCount .eventPtr .event + 1)
        (rows.map fun row => (row.parent, row.eventList)) ∅ := by
  obtain ⟨attributes, nested, _, interfaces, methodImpls, properties, events,
    ⟨hattributes, hnested, -, hinterfaces, hmethodImpls, hproperties, hevents⟩, howners⟩ :=
    findOwners_eq_ok h
  rw [howners]
  exact ⟨⟨attributes, hattributes, rfl⟩, ⟨nested, hnested, rfl, rfl⟩,
    ⟨interfaces, hinterfaces, rfl⟩, ⟨methodImpls, hmethodImpls, rfl⟩,
    ⟨properties, hproperties, rfl⟩, events, hevents, rfl⟩

theorem nestedTypes_of_indexed (h : assembly.Indexed) :
    ∃ rows, assembly.allRows NestedClassRow = .ok rows ∧ ∀ type, assembly.nestedTypes type =
      (rows.filter fun row => row.enclosing == type).map NestedClassRow.nested := by
  obtain ⟨-, ⟨rows, hrows, hnested, -⟩, -⟩ := rows_of_indexed h
  refine ⟨rows, hrows, fun type => ?_⟩
  rw [nestedTypes, hnested, RowIndex.get_group, List.filter_map, List.map_map]
  rfl

/-- Without rows that put a type inside another, no type is inside another. -/
theorem declaringType?_eq_none (h : assembly.Indexed)
    (hnone : assembly.allRows NestedClassRow = .ok []) (type : Nat) :
    assembly.declaringType? type = none := by
  obtain ⟨-, ⟨rows, hrows, -, henclosing⟩, -⟩ := rows_of_indexed h
  obtain rfl := Except.ok.inj (hnone.symm.trans hrows)
  rw [declaringType?, henclosing]
  exact Std.HashMap.getElem?_empty

theorem attributesOf_of_indexed (h : assembly.Indexed) :
    ∃ rows, assembly.allRows CustomAttributeRow = .ok rows ∧ ∀ parent,
      assembly.attributesOf parent = assembly.rowsOf CustomAttributeRow
        ((rows.filter fun row => row.parent.token == parent).map CustomAttributeRow.rid) := by
  obtain ⟨⟨rows, hrows, hattributes⟩, -⟩ := rows_of_indexed h
  refine ⟨rows, hrows, fun parent => ?_⟩
  rw [attributesOf, hattributes, RowIndex.get_group, List.filter_map, List.map_map]
  rfl

theorem runs_of_indexed (h : assembly.Indexed) :
    ∃ properties events, assembly.allRows PropertyMapRow = .ok properties ∧
      assembly.allRows EventMapRow = .ok events ∧
      assembly.owners.properties = runsOf (assembly.entryCount .propertyPtr .property + 1)
        (properties.map fun row => (row.parent, row.propertyList)) ∅ ∧
      assembly.owners.events = runsOf (assembly.entryCount .eventPtr .event + 1)
        (events.map fun row => (row.parent, row.eventList)) ∅ := by
  obtain ⟨-, -, -, -, ⟨properties, hproperties, howners⟩, events, hevents, howners'⟩ :=
    rows_of_indexed h
  exact ⟨properties, events, hproperties, hevents, howners, howners'⟩

/-- What a row puts inside a type is found there. -/
theorem mem_nestedTypes (h : assembly.Indexed) {rid : Nat} {row : NestedClassRow}
    (hrow : assembly.row NestedClassRow rid = .ok row) :
    row.nested ∈ assembly.nestedTypes row.enclosing := by
  obtain ⟨rows, hrows, hnested⟩ := nestedTypes_of_indexed h
  rw [hnested]
  refine List.mem_map_of_mem (List.mem_filter.2 ⟨mem_of_allRows hrows hrow, ?_⟩)
  exact beq_self_eq_true row.enclosing

end Assembly

end ApiCensus
