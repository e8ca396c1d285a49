/-
  The rows that belong to a type.

  * `getElem?_foldl_insert`: of several entries with one key, the last one is found.
  * `Assembly.Holds`: the rows of a table, every one of them.
  * `RowKind.rowsOf_group`: the rows that are found by a column are those that hold the value.
  * `Assembly.rows_of_type`: in an opened assembly the interfaces, the implementations and the
    inner types of a type are found so, and the type around it by the last row about it.
-/
import ApiCensus.Proofs.Assembly.Attributes
import ApiCensus.Proofs.Assembly.Runs

namespace ApiCensus

open Attempt

/-! ## Rows found by a column -/

/-- Of several entries with one key, the last one is found. -/
theorem getElem?_foldl_insert {α β κ : Type} [BEq κ] [LawfulBEq κ] [Hashable κ] (rows : List α)
    (key : α → κ) (value : α → β) (map : Std.HashMap κ β) (k : κ) :
    (rows.foldl (fun map row => map.insert (key row) (value row)) map)[k]? =
      ((rows.filter fun row => key row == k).getLast?.map value).or map[k]? := by
  induction rows generalizing map with
  | nil => rfl
  | cons row rows ih =>
    rw [List.foldl_cons, ih, Std.HashMap.getElem?_insert, List.filter_cons]
    cases hkey : key row == k with
    | false => rfl
    | true =>
      rw [if_pos rfl, if_pos rfl, List.getLast?_cons]
      cases (rows.filter fun row => key row == k).getLast? <;> rfl

/-- The rows whose column holds a value are found by it, in table order. -/
theorem RowKind.rowsOf_group {assembly : Assembly} (kind : RowKind) {rows : List kind.Row}
    (h : assembly.allRows kind.Row = .ok rows) (column : kind.Row → Nat) (value : Nat) :
    assembly.rowsOf kind.Row
        ((RowIndex.group (rows.map fun row => (column row, kind.rid row))).get value) =
      .ok (rows.filter fun row => column row = value) := by
  rw [RowIndex.get_group, List.filter_map, List.map_map]
  exact kind.rowsOf_rids h fun row hrow => (List.mem_filter.1 hrow).1

namespace Assembly

variable {assembly : Assembly} {image : Image}

/-- The rows of a table: every one of them, in the order of their numbers. -/
structure Holds (assembly : Assembly) (kind : RowKind) (rows : List kind.Row) : Prop where
  all : assembly.allRows kind.Row = .ok rows
  rids : rows.map kind.rid = List.range' 1 (assembly.rowCount kind.table)

theorem holds_of_allRows (h : ofImage image = .ok assembly) {kind : RowKind}
    {rows : List kind.Row} (hrows : assembly.allRows kind.Row = .ok rows) :
    assembly.Holds kind rows :=
  ⟨hrows, by rw [kind.rids_of_allRows hrows, (table_of_ofImage h kind).1]⟩

/-! ## Types inside types -/

theorem declaringType?_of_indexed (h : assembly.Indexed) :
    ∃ rows, assembly.allRows NestedClassRow = .ok rows ∧ ∀ type,
      assembly.declaringType? type =
        (rows.filter fun row => row.nested == type).getLast?.map NestedClassRow.enclosing := by
  obtain ⟨-, ⟨rows, hrows, -, henclosing⟩, -⟩ := rows_of_indexed h
  refine ⟨rows, hrows, fun type => ?_⟩
  rw [declaringType?, henclosing, getElem?_foldl_insert, Std.HashMap.getElem?_empty,
    Option.or_none]

/-- A type is among those inside the type around it. -/
theorem mem_nestedTypes_of_declaringType? (h : assembly.Indexed) {type outer : Nat}
    (houter : assembly.declaringType? type = some outer) : type ∈ assembly.nestedTypes outer := by
  obtain ⟨rows, hrows, hdeclaring⟩ := declaringType?_of_indexed h
  rw [hdeclaring] at houter
  obtain ⟨row, hlast, rfl⟩ := Option.map_eq_some_iff.1 houter
  obtain ⟨hrow, hnested⟩ := List.mem_filter.1 (List.mem_of_getLast? hlast)
  rw [← eq_of_beq hnested]
  exact mem_nestedTypes h (RowKind.row_of_mem_allRows .nestedClass hrows hrow)

/-! ## What belongs to a type -/

/-- **In an opened assembly, the interfaces and the implementations that are found for a type are
    the rows whose column holds its number, and the types inside it those of the rows that name it
    as the outer one, in table order and as often as there are rows. The type around it is that
    of the last row about it, and it is among the types inside that one.** -/
theorem rows_of_type (h : ofImage image = .ok assembly) :
    ∃ interfaces methodImpls nested,
      assembly.Holds .interfaceImpl interfaces ∧ assembly.Holds .methodImpl methodImpls ∧
      assembly.Holds .nestedClass nested ∧
      ∀ type,
        assembly.interfacesOf type = .ok (interfaces.filter fun row => row.owner = type) ∧
        assembly.methodImplsOf type = .ok (methodImpls.filter fun row => row.owner = type) ∧
        assembly.nestedTypes type =
          (nested.filter fun row => row.enclosing = type).map NestedClassRow.nested ∧
        assembly.declaringType? type =
          (nested.filter fun row => row.nested = type).getLast?.map NestedClassRow.enclosing ∧
        ∀ outer, assembly.declaringType? type = some outer → type ∈ assembly.nestedTypes outer := by
  have hindexed := indexed_of_ofImage h
  obtain ⟨-, -, ⟨interfaces, hinterfaces, howners⟩, ⟨methodImpls, hmethodImpls, howners'⟩, -⟩ :=
    rows_of_indexed hindexed
  obtain ⟨nested, hnested, hinside⟩ := nestedTypes_of_indexed hindexed
  obtain ⟨_, hsame, haround⟩ := declaringType?_of_indexed hindexed
  obtain rfl := Except.ok.inj (hnested.symm.trans hsame)
  refine ⟨interfaces, methodImpls, nested, holds_of_allRows h hinterfaces,
    holds_of_allRows h hmethodImpls, holds_of_allRows h hnested, fun type => ⟨?_, ?_, ?_, ?_, ?_⟩⟩
  · rw [interfacesOf, howners]
    exact RowKind.rowsOf_group .interfaceImpl hinterfaces InterfaceImplRow.owner type
  · rw [methodImplsOf, howners']
    exact RowKind.rowsOf_group .methodImpl hmethodImpls MethodImplRow.owner type
  · exact hinside type
  · exact haround type
  · exact fun outer houter => mem_nestedTypes_of_declaringType? hindexed houter

deriving instance DecidableEq for InterfaceImplRow, NestedClassRow

/-- Three types. The second one has an interface twice, and two rows about what it is inside. Some
    rows are about a type inside itself and about types that there are not. -/
def tangledRows : TableRows
  | .assembly => [[0, 1, 0, 0, 0, 0, 0, 0, 0]]
  | .typeDef => List.replicate 3 [0, 0, 0, 0, 1, 1]
  | .interfaceImpl => [[2, 4], [1, 4], [2, 4]]
  | .methodImpl => [[3, 2, 2], [9, 2, 2]]
  | .nestedClass => [[2, 1], [3, 3], [2, 3], [7, 9]]
  | _ => []

theorem rows_of_type_tangled : ∃ assembly interfaces,
    ofImage (imageOf tangledRows) = .ok assembly ∧
      assembly.interfacesOf 2 = .ok interfaces ∧ interfaces.map InterfaceImplRow.rid = [1, 3] ∧
      assembly.nestedTypes 3 = [3, 2] ∧ assembly.declaringType? 2 = some 3 ∧
      assembly.declaringType? 7 = some 9 ∧ assembly.declaringType? 1 = none := by
  have hcomputed : (ofImage (imageOf tangledRows)).toOption.map (fun assembly =>
      ((assembly.allRows InterfaceImplRow).toOption, (assembly.allRows NestedClassRow).toOption)) =
      some (some [⟨1, 2, ⟨.typeDef, 1⟩⟩, ⟨2, 1, ⟨.typeDef, 1⟩⟩, ⟨3, 2, ⟨.typeDef, 1⟩⟩],
        some [⟨1, 2, 1⟩, ⟨2, 3, 3⟩, ⟨3, 2, 3⟩, ⟨4, 7, 9⟩]) := by
    decide +kernel
  obtain ⟨assembly, hok, hcomputed⟩ := exists_ok_of_map hcomputed
  obtain ⟨hinterfaces, hnested⟩ := Prod.mk.inj hcomputed
  obtain ⟨interfaces, _, nested, hholds, -, hholds', htypes⟩ := rows_of_type hok
  obtain rfl := Except.ok.inj (hholds.all.symm.trans (eq_ok_of_toOption hinterfaces))
  obtain rfl := Except.ok.inj (hholds'.all.symm.trans (eq_ok_of_toOption hnested))
  exact ⟨assembly, _, hok, (htypes 2).1, by decide, (htypes 3).2.2.1, (htypes 2).2.2.2.1,
    (htypes 7).2.2.2.1, (htypes 1).2.2.2.1⟩

end Assembly

end ApiCensus
