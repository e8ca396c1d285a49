/-
  The attributes of a row.

  * `Token.ofRow_eq_ofRow`: tokens are equal if the tables are and the low bits of the rows.
  * `RowKind.rids_of_allRows`, `RowKind.rowsOf_rids`: all rows of a table are numbered from 1 on,
    and found again by their numbers.
  * `Assembly.attributes_of_indexed`: the attributes that are found for a row are those whose
    parent has its token.
  * `Assembly.attributesOf_ofRow`: so they are the attributes of the row as long as no attribute
    names another row of the table that has the same token.
-/
import ApiCensus.Proofs.Assembly.Opening
import ApiCensus.Proofs.Assembly.Owners
import ApiCensus.Proofs.Metadata.Columns
import ApiCensus.Proofs.Metadata.Extents

namespace ApiCensus

open Attempt

/-! ## Tokens -/

theorem Token.ofRow_eq_ofRow {table table' : TableId} {row row' : Nat} :
    ofRow table row = ofRow table' row' ↔ table = table' ∧ row % rowBound = row' % rowBound := by
  constructor
  · intro h
    have htable := congrArg tableNumber h
    have hrow := congrArg Token.row h
    rw [tableNumber_ofRow, tableNumber_ofRow, TableId.number_inj] at htable
    rw [row_ofRow, row_ofRow] at hrow
    exact ⟨htable, hrow⟩
  · rintro ⟨rfl, hrow⟩
    rw [ofRow, ofRow, hrow]

theorem CodedIndex.token_eq_ofRow {index : CodedIndex} {table : TableId} {row : Nat} :
    index.token = Token.ofRow table row ↔
      index.table = table ∧ index.row % Token.rowBound = row % Token.rowBound :=
  Token.ofRow_eq_ofRow

/-! ## All rows of a table -/

namespace RowKind

variable {assembly : Assembly} (kind : RowKind) {rows : List kind.Row}

theorem rids_of_allRows (h : assembly.allRows kind.Row = .ok rows) :
    rows.map kind.rid = List.range' 1 (assembly.table kind.Row).count := by
  have hrows : (List.range (assembly.table kind.Row).count).mapM
      (fun index => (assembly.table kind.Row).get (index + 1)) = .ok rows := by
    rw [Assembly.allRows, Table.rows, List.mapM_map] at h
    exact h
  rw [map_eq_of_mapM_eq_ok (fun index row hrow => kind.rid_of_get hrow) hrows,
    List.range'_eq_map_range]
  exact List.map_congr_left fun index _ => Nat.add_comm index 1

theorem row_of_mem_allRows (h : assembly.allRows kind.Row = .ok rows) {row : kind.Row}
    (hrow : row ∈ rows) : assembly.row kind.Row (kind.rid row) = .ok row := by
  obtain ⟨result, hresult, hok⟩ := mem_of_mapM_eq_ok h hrow
  obtain rfl : result = .ok row := hok
  obtain ⟨rid, hget⟩ := Table.get_of_mem_rows hresult
  rwa [kind.rid_of_get hget]

/-- Rows of a table are found by their numbers. -/
theorem rowsOf_rids (h : assembly.allRows kind.Row = .ok rows) {found : List kind.Row}
    (hfound : ∀ row ∈ found, row ∈ rows) :
    assembly.rowsOf kind.Row (found.map kind.rid) = .ok found :=
  mapM_eq_ok_self fun row hrow => kind.row_of_mem_allRows h (hfound row hrow)

end RowKind

/-! ## Attributes -/

namespace Assembly

variable {assembly : Assembly} {rows : List CustomAttributeRow}

theorem attributes_of_indexed (h : assembly.Indexed) :
    ∃ rows, assembly.allRows CustomAttributeRow = .ok rows ∧ ∀ table row,
      assembly.attributesOf (Token.ofRow table row) = .ok (rows.filter fun item =>
        item.parent.table = table ∧
          item.parent.row % Token.rowBound = row % Token.rowBound) := by
  obtain ⟨rows, hrows, hattributes⟩ := attributesOf_of_indexed h
  refine ⟨rows, hrows, fun table row => ?_⟩
  have htoken : (rows.filter fun item => item.parent.token == Token.ofRow table row) =
      rows.filter fun item => item.parent.table = table ∧
        item.parent.row % Token.rowBound = row % Token.rowBound := by
    refine List.filter_congr fun item _ => ?_
    rw [Bool.eq_iff_iff, beq_iff_eq, decide_eq_true_iff]
    exact CodedIndex.token_eq_ofRow
  rw [hattributes, htoken]
  exact RowKind.rowsOf_rids .customAttribute hrows fun item hitem => (List.mem_filter.1 hitem).1

/-- The same rows are kept if the tokens tell apart what has to be told apart. -/
theorem filter_token_eq_iff (rows : List CustomAttributeRow) (table : TableId) (row : Nat) :
    ((rows.filter fun item => item.parent.table = table ∧
        item.parent.row % Token.rowBound = row % Token.rowBound) =
      rows.filter fun item => item.parent = ⟨table, row⟩) ↔
      ∀ item ∈ rows, item.parent.table = table →
        item.parent.row % Token.rowBound = row % Token.rowBound →
          item.parent.row = row := by
  constructor
  · intro h item hitem htable hrow
    have hmem : item ∈ rows.filter fun item => item.parent.table = table ∧
        item.parent.row % Token.rowBound = row % Token.rowBound :=
      List.mem_filter.2 ⟨hitem, decide_eq_true ⟨htable, hrow⟩⟩
    rw [h, List.mem_filter, decide_eq_true_iff] at hmem
    exact congrArg CodedIndex.row hmem.2
  · intro h
    refine List.filter_congr fun item hitem => ?_
    rw [decide_eq_decide]
    constructor
    · rintro ⟨htable, hrow⟩
      exact congr (congrArg CodedIndex.mk htable) (h item hitem htable hrow)
    · rintro hparent
      exact ⟨congrArg CodedIndex.table hparent,
        congrArg (fun index => index.row % Token.rowBound) hparent⟩

/-- **In an opened assembly, what is found for a row of any table are the attributes whose parent
    is a row of the table with the same token, each of them once, in the order of their numbers.
    These are the attributes of the row just if no attribute belongs to another row of the table
    that has the same low bits.** -/
theorem attributesOf_ofRow {image : Image} (h : ofImage image = .ok assembly) :
    ∃ rows, assembly.allRows CustomAttributeRow = .ok rows ∧
      rows.map CustomAttributeRow.rid =
        List.range' 1 (assembly.table CustomAttributeRow).count ∧
      ∀ table row,
        assembly.attributesOf (Token.ofRow table row) = .ok (rows.filter fun item =>
          item.parent.table = table ∧
            item.parent.row % Token.rowBound = row % Token.rowBound) ∧
        (assembly.attributesOf (Token.ofRow table row) =
            .ok (rows.filter fun item => item.parent = ⟨table, row⟩) ↔
          ∀ item ∈ rows, item.parent.table = table →
            item.parent.row % Token.rowBound = row % Token.rowBound →
              item.parent.row = row) := by
  obtain ⟨rows, hrows, hattributes⟩ := attributes_of_indexed (indexed_of_ofImage h)
  refine ⟨rows, hrows, RowKind.rids_of_allRows .customAttribute hrows, fun table row => ?_⟩
  refine ⟨hattributes table row, ?_⟩
  rw [hattributes, Except.ok.injEq]
  exact filter_token_eq_iff rows table row

/-- Three attributes: the first one and the last one of a type, the other one of the assembly. -/
def markedRows : TableRows
  | .assembly => [[0, 1, 0, 0, 0, 0, 0, 0, 0]]
  | .typeDef => [[0, 0, 0, 0, 1, 1]]
  | .customAttribute => [[1 * 32 + 3, 2, 0], [1 * 32 + 14, 2, 0], [1 * 32 + 3, 2, 0]]
  | _ => []

theorem attributesOf_ofRow_attributed : ∃ assembly rows,
    ofImage (imageOf markedRows) = .ok assembly ∧
      assembly.attributesOf (Token.ofRow .typeDef 1) = .ok rows ∧
      rows.map CustomAttributeRow.rid = [1, 3] := by
  have hcomputed : (ofImage (imageOf markedRows)).toOption.map (fun assembly =>
      (assembly.allRows CustomAttributeRow).toOption.map fun rows =>
        rows.map fun item => (item.rid, item.parent)) =
      some (some [(1, ⟨.typeDef, 1⟩), (2, ⟨.assembly, 1⟩), (3, ⟨.typeDef, 1⟩)]) := by
    decide +kernel
  obtain ⟨assembly, hok, hcomputed⟩ := exists_ok_of_map hcomputed
  obtain ⟨rows, hrows, -, hattributes⟩ := attributesOf_ofRow hok
  rw [hrows] at hcomputed
  have hparents := Option.some.inj hcomputed
  obtain ⟨first, others, rfl, hfirst, hothers⟩ := List.map_eq_cons_iff.1 hparents
  obtain ⟨second, others, rfl, hsecond, hothers⟩ := List.map_eq_cons_iff.1 hothers
  obtain ⟨third, others, rfl, hthird, hothers⟩ := List.map_eq_cons_iff.1 hothers
  obtain rfl := List.map_eq_nil_iff.1 hothers
  obtain ⟨hrid, hparent⟩ := Prod.mk.inj hfirst
  obtain ⟨-, hparent₂⟩ := Prod.mk.inj hsecond
  obtain ⟨hrid₃, hparent₃⟩ := Prod.mk.inj hthird
  refine ⟨assembly, _, hok, (hattributes .typeDef 1).1, ?_⟩
  simp [hparent, hparent₂, hparent₃, hrid, hrid₃]

/-- So many rows that a parent takes four bytes, and an attribute of a row that there is not. -/
def crowdedRows : TableId → List (List UInt8)
  | .moduleRef => List.replicate 0x800 [0, 0]
  | .customAttribute => [LittleEndian.encode 4 (0x1000001 * 32 + 12) ++ [2, 0, 0, 0]]
  | _ => []

/-- An assembly with those rows. -/
def crowded : Assembly :=
  (ofRows crowdedRows [0] [0] {}).withOwners

/-- The attribute of row 0x1000001 is found for row 1. -/
theorem attributesOf_crowded : crowded.Indexed ∧ ∃ item,
    crowded.allRows CustomAttributeRow = .ok [item] ∧ item.parent = ⟨.moduleRef, 0x1000001⟩ ∧
      crowded.rowCount .moduleRef = 0x800 ∧
      crowded.attributesOf (Token.ofRow .moduleRef 1) = .ok [item] := by
  have hindexed : crowded.Indexed := indexed_withOwners (by decide +kernel)
  have hcomputed : (crowded.allRows CustomAttributeRow).toOption.map
      (fun rows => rows.map CustomAttributeRow.parent) = some [⟨.moduleRef, 0x1000001⟩] := by
    decide +kernel
  obtain ⟨rows, hrows, hattributes⟩ := attributes_of_indexed hindexed
  rw [hrows] at hcomputed
  obtain ⟨item, others, rfl, hparent, hothers⟩ :=
    List.map_eq_cons_iff.1 (Option.some.inj hcomputed)
  obtain rfl := List.map_eq_nil_iff.1 hothers
  refine ⟨hindexed, item, hrows, hparent, by decide +kernel, ?_⟩
  rw [hattributes]
  simp [hparent, Token.rowBound]

end Assembly

end ApiCensus
