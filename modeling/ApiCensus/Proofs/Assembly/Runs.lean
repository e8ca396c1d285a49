/-
  The runs of list entries that belong to types.

  A type points at its first entry in a list, and its run ends where the next one starts.

  * `Run.consecutive`: the runs of owners, given their first entries in order.
  * `Divides`: such runs lie inside the list, and do not overlap or leave gaps if the first entries
    are in order; `divides_consecutive` says that it is so.
  * `RowKind.numberAt`: a column of a row, whether or not the row can be read.
  * `Assembly.TypeRuns`: the runs that are found for types; `Assembly.typeRuns_of_ofImage`.
  * `Assembly.runs_divide`: in an opened assembly the runs of types and of the rows of maps divide
    the members.
-/
import ApiCensus.Assembly.Members
import ApiCensus.Proofs.Assembly.Opening
import ApiCensus.Proofs.Assembly.Owners
import ApiCensus.Proofs.Metadata.Columns
import Mathlib.Data.List.Nodup

namespace ApiCensus

/-! ## Runs one behind the other -/

namespace Run

/-- The runs of owners, given their first entries in order: a run ends where the next one starts,
    and the last one at the bound. -/
def consecutive (bound : Nat) : List Nat → List Run
  | [] => []
  | start :: starts => clamp { start, stop := starts.headD bound } bound :: consecutive bound starts

variable {bound : Nat} {run : Run} {starts : List Nat}

theorem length_consecutive (bound : Nat) (starts : List Nat) :
    (consecutive bound starts).length = starts.length := by
  induction starts with
  | nil => rfl
  | cons start starts ih => rw [consecutive, List.length_cons, List.length_cons, ih]

theorem start_consecutive (bound : Nat) (starts : List Nat) :
    (consecutive bound starts).map Run.start = starts.map fun start => min (max start 1) bound := by
  induction starts with
  | nil => rfl
  | cons start starts ih =>
    rw [consecutive, List.map_cons, List.map_cons, ih]
    rfl

theorem getElem?_consecutive (bound : Nat) {index start : Nat} (h : starts[index]? = some start) :
    (consecutive bound starts)[index]? =
      some (clamp { start, stop := starts[index + 1]?.getD bound } bound) := by
  induction starts generalizing index with
  | nil => simp at h
  | cons first starts ih =>
    cases index with
    | zero =>
      obtain rfl := Option.some.inj h
      cases starts <;> rfl
    | succ index => exact ih h

theorem exists_clamp_of_mem (h : run ∈ consecutive bound starts) :
    ∃ start ∈ starts, ∃ stop, run = clamp { start, stop } bound := by
  induction starts with
  | nil => cases h
  | cons start starts ih =>
    rcases List.mem_cons.1 h with rfl | h
    · exact ⟨start, List.mem_cons_self, _, rfl⟩
    · obtain ⟨other, hother, hrun⟩ := ih h
      exact ⟨other, List.mem_cons_of_mem start hother, hrun⟩

theorem stop_getLast? (h : run ∈ (consecutive bound starts).getLast?) : run.stop = bound := by
  induction starts with
  | nil => cases h
  | cons start starts ih =>
    cases starts with
    | nil =>
      obtain rfl : clamp { start, stop := bound } bound = run := Option.some.inj h
      simp only [clamp]
      omega
    | cons next starts => exact ih h

/-- A run that starts no later than the next one ends there. -/
theorem stop_clamp (bound : Nat) {start next : Nat} (h : start ≤ next) (stop : Nat) :
    (clamp { start, stop := next } bound).stop = (clamp { start := next, stop } bound).start := by
  simp only [clamp]
  omega

theorem isChain_consecutive (h : starts.Pairwise (· ≤ ·)) :
    (consecutive bound starts).IsChain fun run next => run.stop = next.start := by
  induction starts with
  | nil => exact .nil
  | cons start starts ih =>
    obtain ⟨hle, hrest⟩ := List.pairwise_cons.1 h
    cases starts with
    | nil => exact .singleton _
    | cons next starts =>
      exact .cons_cons (stop_clamp bound (hle next List.mem_cons_self) _) (ih hrest)

/-- If the first entries are in order, no run starts before the one in front of it ends. -/
theorem stop_le_start {start : Nat} (h : (start :: starts).Pairwise (· ≤ ·))
    (hrun : run ∈ consecutive bound starts) :
    (clamp { start, stop := starts.headD bound } bound).stop ≤ run.start := by
  obtain ⟨other, hother, stop, rfl⟩ := exists_clamp_of_mem hrun
  obtain ⟨hbefore, hrest⟩ := List.pairwise_cons.1 h
  obtain ⟨next, rest, rfl⟩ := List.exists_cons_of_ne_nil (List.ne_nil_of_mem hother)
  have hstart := hbefore next List.mem_cons_self
  have hnext : next ≤ other := by
    rcases List.mem_cons.1 hother with rfl | hother
    · exact Nat.le_refl _
    · exact (List.pairwise_cons.1 hrest).1 other hother
  simp only [clamp, List.headD_cons]
  omega

/-- If the first entries are in order, every entry from the first one on is in one run only. -/
theorem existsUnique_consecutive (h : starts.Pairwise (· ≤ ·)) {first : Run}
    (hfirst : first ∈ (consecutive bound starts).head?) {entry : Nat} (hle : first.start ≤ entry)
    (hlt : entry < bound) :
    ∃! index : Nat, ∃ run, (consecutive bound starts)[index]? = some run ∧ entry ∈ run.toList := by
  induction starts generalizing first with
  | nil => cases hfirst
  | cons start starts ih =>
    obtain ⟨hbefore, hrest⟩ := List.pairwise_cons.1 h
    obtain rfl := Option.some.inj hfirst
    -- The other runs start where the first one ends, so the entry is in the first one or in them.
    by_cases hin : entry < (clamp { start, stop := starts.headD bound } bound).stop
    · refine ⟨0, ⟨_, rfl, mem_toList.2 ⟨hle, hin⟩⟩, fun index hindex => ?_⟩
      obtain ⟨run, hrun, hentry⟩ := hindex
      cases index with
      | zero => rfl
      | succ index =>
        have hstart := stop_le_start h (List.mem_of_getElem? hrun)
        exact absurd (mem_toList.1 hentry).1 (Nat.not_le_of_lt (Nat.lt_of_lt_of_le hin hstart))
    · cases starts with
      | nil =>
        simp only [clamp, List.headD_nil] at hin
        omega
      | cons next starts =>
        have hstop := stop_clamp bound (hbefore next List.mem_cons_self) (starts.headD bound)
        obtain ⟨index, hindex, hunique⟩ := ih hrest rfl (hstop ▸ Nat.le_of_not_lt hin)
        refine ⟨index + 1, hindex, fun other hother => ?_⟩
        obtain ⟨run, hrun, hentry⟩ := hother
        cases other with
        | zero =>
          obtain rfl := Option.some.inj hrun
          exact absurd (mem_toList.1 hentry).2 hin
        | succ other => rw [hunique other ⟨run, hrun, hentry⟩]

end Run

/-- The runs divide the entries from 1 to `count`, as the first entries of their owners tell. -/
structure Divides (count : Nat) (starts : List Nat) (runs : List Run) : Prop where
  /-- A run starts at the first entry, or at the next place in the list. -/
  start : runs.map Run.start = starts.map fun start => min (max start 1) (count + 1)
  inside : ∀ run ∈ runs, 1 ≤ run.start ∧ run.start ≤ run.stop ∧ run.stop ≤ count + 1
  last : ∀ run ∈ runs.getLast?, run.stop = count + 1
  /-- A run ends where the next one starts, if the first entries are in order. -/
  meet : starts.Pairwise (· ≤ ·) → runs.IsChain fun run next => run.stop = next.start
  /-- Then each entry from the first one on has one owner. -/
  owned : starts.Pairwise (· ≤ ·) → ∀ first ∈ runs.head?, ∀ entry, first.start ≤ entry →
    entry ≤ count → ∃! index : Nat, ∃ run, runs[index]? = some run ∧ entry ∈ run.toList

theorem divides_consecutive (count : Nat) (starts : List Nat) :
    Divides count starts (Run.consecutive (count + 1) starts) where
  start := Run.start_consecutive (count + 1) starts
  inside run hrun := by
    obtain ⟨start, -, stop, rfl⟩ := Run.exists_clamp_of_mem hrun
    exact Run.inside_clamp (Nat.succ_pos count) _
  last _ hrun := Run.stop_getLast? hrun
  meet h := Run.isChain_consecutive h
  owned h _ hfirst _ hle hlt := Run.existsUnique_consecutive h hfirst hle (Nat.lt_succ_of_le hlt)

/-! ## Columns of rows that may be broken -/

theorem Layout.getElem?_cellsAt {layout : Layout} {data : ByteArray} {pos index : Nat}
    {columns : List Column} {cells : List Cell} (h : layout.cellsAt data pos columns = .ok cells)
    {column : Column} (hcolumn : columns[index]? = some column)
    (plain : ∀ kind, column ≠ .coded kind) :
    cells[index]? = some (.number (LittleEndian.valueAt data
      (pos + layout.size (columns.take index)) (layout.columnBytes column))) := by
  induction columns generalizing pos index cells with
  | nil => simp at hcolumn
  | cons first columns ih =>
    obtain ⟨cell, hcell, h⟩ := except_bind_eq_ok h
    obtain ⟨rest, hrest, h⟩ := except_bind_eq_ok h
    obtain rfl := Except.ok.inj h
    cases index with
    | zero =>
      obtain rfl := Option.some.inj hcolumn
      cases first with
      | coded kind => exact absurd rfl (plain kind)
      | _ => exact congrArg some (Except.ok.inj hcell).symm
    | succ index =>
      rw [List.getElem?_cons_succ, ih hrest hcolumn, List.take_succ_cons, size_cons, Nat.add_assoc]

/-- The number in a column of a row, whether or not the row can be read. -/
def RowKind.numberAt (kind : RowKind) (table : Table kind.Row) (index rid : Nat) : Nat :=
  LittleEndian.valueAt table.data
    (kind.start table.layout rid + table.layout.size (kind.table.columns.take index))
    (table.layout.columnBytes (kind.table.columns.getD index .short))

/-- A row that can be read has the numbers of its columns. -/
theorem RowKind.getElem?_cells (kind : RowKind) {table : Table kind.Row}
    (hsize : table.count * table.layout.rowSize kind.table ≤ table.data.size) {rid : Nat}
    {row : kind.Row} (h : table.get rid = .ok row) {index : Nat} {column : Column}
    (hcolumn : kind.table.columns[index]? = some column) (plain : ∀ kind, column ≠ .coded kind) :
    (kind.cells row)[index]? = some (.number (kind.numberAt table index rid)) := by
  have hrid : 1 ≤ rid ∧ rid ≤ table.count := Table.bounds_of_get h
  have hcells := (get_columns hsize hrid.1 hrid.2).1
  have hrow : (kind.tableOf table.layout table.data table.count).get rid = .ok row := h
  rw [hrow] at hcells
  rcases hat : table.layout.cellsAt table.data (kind.start table.layout rid) kind.table.columns with
    fault | cells <;> rw [hat] at hcells
  · cases hcells
  · obtain ⟨-, rfl⟩ := Prod.mk.inj (Except.ok.inj hcells)
    rw [Layout.getElem?_cellsAt hat hcolumn plain, numberAt, List.getD_eq_getElem?_getD, hcolumn]
    rfl

namespace Assembly

variable {assembly : Assembly} {image : Image}

/-- The rows of a table are all there in an opened assembly. -/
theorem table_of_ofImage (h : ofImage image = .ok assembly) (kind : RowKind) :
    (assembly.table kind.Row).count = assembly.rowCount kind.table ∧
      (assembly.table kind.Row).count * (assembly.table kind.Row).layout.rowSize kind.table ≤
        (assembly.table kind.Row).data.size := by
  obtain ⟨_, -, -, _, -, hstream, htable⟩ := streams_of_ofImage h
  have ht := TableStream.tiled_of_ofBytes hstream
  rw [htable, ht.table_eq]
  exact ⟨rfl, Nat.le_of_eq (ht.size_bytesOf _).symm⟩

/-! ## Types -/

/-- The place of the column of the types that holds rows of a table. -/
def columnOf (members : TableId) : Nat :=
  TableId.typeDef.columns.idxOf (.row members)

/-- The numbers in that column, whether or not the types can be read. -/
def typeColumn (assembly : Assembly) (members : TableId) : List Nat :=
  (List.range' 1 (assembly.rowCount .typeDef)).map
    (RowKind.numberAt .typeDef (assembly.table TypeDefRow) (columnOf members))

theorem getElem?_typeColumn (members : TableId) {rid : Nat} (hpos : 1 ≤ rid)
    (hle : rid ≤ assembly.rowCount .typeDef) : (assembly.typeColumn members)[rid - 1]? =
      some (RowKind.numberAt .typeDef (assembly.table TypeDefRow) (columnOf members) rid) := by
  rw [typeColumn, List.getElem?_map, List.getElem?_range' (by omega), Nat.one_mul,
    Nat.add_sub_cancel' hpos]
  rfl

/-- The runs of the types in the list of their members, given the first entry of a type. -/
structure TypeRuns (assembly : Assembly) (entries members : TableId) (first : TypeDefRow → Nat)
    (runs : List Run) : Prop where
  divides : Divides (assembly.entryCount entries members) (assembly.typeColumn members) runs
  /-- The first entry of a type that can be read is the number in the column. -/
  start : ∀ rid type, assembly.row TypeDefRow rid = .ok type →
    (assembly.typeColumn members)[rid - 1]? = some (first type)
  /-- The run of a type is found, unless the type behind it cannot be read. -/
  found : ∀ rid type, assembly.row TypeDefRow rid = .ok type → ∃ run, runs[rid - 1]? = some run ∧
    assembly.runOfType type first (assembly.entryCount entries members + 1) =
      if rid < assembly.rowCount .typeDef then
        (assembly.row TypeDefRow (rid + 1)).map fun _ => run
      else .ok run

/-- The runs of the types are found as their columns tell. -/
theorem typeRuns_of_ofImage (h : ofImage image = .ok assembly) (entries : TableId)
    {members : TableId} {first : TypeDefRow → Nat}
    (hcolumn : TableId.typeDef.columns[columnOf members]? = some (.row members))
    (hfirst : ∀ type, (RowKind.cells .typeDef type)[columnOf members]? =
      some (.number (first type))) :
    assembly.TypeRuns entries members first
      (Run.consecutive (assembly.entryCount entries members + 1)
        (assembly.typeColumn members)) := by
  obtain ⟨hcount, hsize⟩ := table_of_ofImage h .typeDef
  have hbounds : ∀ {rid type}, assembly.row TypeDefRow rid = .ok type →
      1 ≤ rid ∧ rid ≤ assembly.rowCount .typeDef := by
    intro rid type hrow
    obtain ⟨hpos, hle⟩ := Table.bounds_of_get hrow
    exact ⟨hpos, Nat.le_trans hle (Nat.le_of_eq hcount)⟩
  have hstart : ∀ rid type, assembly.row TypeDefRow rid = .ok type →
      (assembly.typeColumn members)[rid - 1]? = some (first type) := by
    intro rid type hrow
    have hcell := RowKind.getElem?_cells .typeDef hsize hrow hcolumn nofun
    rw [hfirst type] at hcell
    obtain ⟨hpos, hle⟩ := hbounds hrow
    rw [getElem?_typeColumn members hpos hle, Cell.number.inj (Option.some.inj hcell)]
  refine ⟨divides_consecutive _ _, hstart, fun rid type hrow => ?_⟩
  obtain ⟨hpos, hle⟩ := hbounds hrow
  refine ⟨_, Run.getElem?_consecutive _ (hstart rid type hrow), ?_⟩
  have hrid : type.rid = rid := RowKind.rid_of_get .typeDef hrow
  rw [runOfType, hrid, Nat.sub_add_cancel hpos]
  by_cases hlt : rid < assembly.rowCount .typeDef
  · rw [if_pos hlt, if_pos hlt]
    cases hnext : assembly.row TypeDefRow (rid + 1) with
    | error fault => rfl
    | ok next =>
      have hstop : (assembly.typeColumn members)[rid]? = some (first next) := hstart _ _ hnext
      rw [hstop]
      rfl
  · have hstop : (assembly.typeColumn members)[rid]? = none := by
      rw [typeColumn, List.getElem?_eq_none_iff, List.length_map, List.length_range']
      omega
    rw [if_neg hlt, if_neg hlt, hstop]
    rfl

/-! ## Maps -/

/-- The runs of the owners that a map lists, in the order of its rows. -/
theorem runsOf_eq_insertMany (bound : Nat) (rows : List (Nat × Nat)) (runs : Std.HashMap Nat Run) :
    runsOf bound rows runs = runs.insertMany
      ((rows.map Prod.fst).zip (Run.consecutive bound (rows.map Prod.snd))) := by
  induction rows generalizing runs with
  | nil => rfl
  | cons row rows ih =>
    have hstep : runsOf bound (row :: rows) runs = runsOf bound rows (runs.insert row.1
        (Run.clamp { start := row.2, stop := (rows.map Prod.snd).headD bound } bound)) := by
      cases rows <;> rfl
    rw [hstep, ih, List.map_cons, List.map_cons, Run.consecutive, List.zip_cons_cons,
      Std.HashMap.insertMany_cons]

/-- No run is lost if all owners are distinct. -/
theorem getElem?_runsOf_of_nodup {α : Type} {rows : List α} {owner start : α → Nat}
    (h : (rows.map owner).Nodup) (bound : Nat) :
    rows.map (fun row =>
        (runsOf bound (rows.map fun row => (owner row, start row)) ∅)[owner row]?) =
      (Run.consecutive bound (rows.map start)).map some := by
  have hlength : (Run.consecutive bound (rows.map start)).length = rows.length := by
    rw [Run.length_consecutive, List.length_map]
  have hkeys : ((rows.map owner).zip (Run.consecutive bound (rows.map start))).map Prod.fst =
      rows.map owner := List.map_fst_zip (Nat.le_of_eq (by rw [hlength, List.length_map]))
  have hdistinct : ((rows.map owner).zip (Run.consecutive bound (rows.map start))).Pairwise
      fun a b => (a.1 == b.1) = false := by
    rw [← hkeys, List.Nodup, List.pairwise_map] at h
    exact h.imp fun hne => beq_false_of_ne hne
  have hruns : runsOf bound (rows.map fun row => (owner row, start row)) ∅ =
      (∅ : Std.HashMap Nat Run).insertMany
        ((rows.map owner).zip (Run.consecutive bound (rows.map start))) := by
    rw [runsOf_eq_insertMany, List.map_map, List.map_map]
    rfl
  rw [hruns]
  refine List.ext_getElem (by rw [List.length_map, List.length_map, hlength])
    fun index hrow hrun => ?_
  rw [List.length_map] at hrow hrun
  rw [List.getElem_map, List.getElem_map]
  refine Std.HashMap.getElem?_insertMany_list_of_mem (beq_self_eq_true _) hdistinct
    (List.mem_of_getElem? (i := index) ?_)
  rw [List.getElem?_zip_eq_some, List.getElem?_map, List.getElem?_eq_getElem hrow,
    List.getElem?_eq_getElem hrun]
  exact ⟨rfl, rfl⟩

/-- **In an opened assembly the runs of the types, in the list of fields and in that of methods,
    lie inside the list, whatever the types hold. If the first entries are in order, a run ends
    where the next one starts, the last one at the end of the list, and every entry from the first
    one on belongs to one type. So it is with the rows of the maps of properties and of events
    that have distinct types.** -/
theorem runs_divide (h : ofImage image = .ok assembly) :
    (∃ runs, assembly.TypeRuns .fieldPtr .field TypeDefRow.fieldList runs) ∧
    (∃ runs, assembly.TypeRuns .methodPtr .methodDef TypeDefRow.methodList runs) ∧
    (∃ rows, assembly.allRows PropertyMapRow = .ok rows ∧
      ((rows.map PropertyMapRow.parent).Nodup → ∃ runs,
        rows.map (fun row => assembly.owners.properties[row.parent]?) = runs.map some ∧
        Divides (assembly.entryCount .propertyPtr .property)
          (rows.map PropertyMapRow.propertyList) runs)) ∧
    ∃ rows, assembly.allRows EventMapRow = .ok rows ∧
      ((rows.map EventMapRow.parent).Nodup → ∃ runs,
        rows.map (fun row => assembly.owners.events[row.parent]?) = runs.map some ∧
        Divides (assembly.entryCount .eventPtr .event) (rows.map EventMapRow.eventList) runs) := by
  obtain ⟨properties, events, hproperties, hevents, howners, howners'⟩ :=
    runs_of_indexed (indexed_of_ofImage h)
  refine ⟨⟨_, typeRuns_of_ofImage h .fieldPtr rfl fun _ => rfl⟩,
    ⟨_, typeRuns_of_ofImage h .methodPtr rfl fun _ => rfl⟩,
    ⟨properties, hproperties, fun hdistinct => ⟨_, ?_, divides_consecutive _ _⟩⟩,
    ⟨events, hevents, fun hdistinct => ⟨_, ?_, divides_consecutive _ _⟩⟩⟩
  · rw [howners]
    exact getElem?_runsOf_of_nodup hdistinct _
  · rw [howners']
    exact getElem?_runsOf_of_nodup hdistinct _

/-- Three types that point into a list of three fields, out of order, and a map of properties whose
    rows are out of order. -/
def disorderedRows : TableRows
  | .assembly => [[0, 1, 0, 0, 0, 0, 0, 0, 0]]
  | .typeDef => [[0, 0, 0, 0, 0, 1], [0, 0, 0, 0, 7, 1], [0, 0, 0, 0, 2, 1]]
  | .field => List.replicate 3 [6, 0, 0]
  | .propertyMap => [[3, 1], [2, 2]]
  | .property => List.replicate 2 [0, 0, 0]
  | _ => []

theorem runs_divide_disordered : ∃ assembly runs,
    ofImage (imageOf disorderedRows) = .ok assembly ∧
      assembly.TypeRuns .fieldPtr .field TypeDefRow.fieldList runs ∧
      runs.map Run.start = [1, 4, 2] ∧
      ∃ rows, assembly.allRows PropertyMapRow = .ok rows ∧
        rows.map PropertyMapRow.parent = [3, 2] ∧ ∃ runs,
          rows.map (fun row => assembly.owners.properties[row.parent]?) = runs.map some ∧
          Divides 2 [1, 2] runs := by
  have hcomputed : (ofImage (imageOf disorderedRows)).toOption.map (fun assembly =>
      ([assembly.entryCount .fieldPtr .field, assembly.entryCount .propertyPtr .property],
        assembly.typeColumn .field, (assembly.allRows PropertyMapRow).toOption.map fun rows =>
          [rows.map PropertyMapRow.parent, rows.map PropertyMapRow.propertyList])) =
      some ([3, 2], [0, 7, 2], some [[3, 2], [1, 2]]) := by
    decide +kernel
  obtain ⟨assembly, hok, hcomputed⟩ := exists_ok_of_map hcomputed
  obtain ⟨⟨runs, hruns⟩, -, ⟨rows, hmap, hdivides⟩, -⟩ := runs_divide hok
  simp only [Prod.mk.injEq, List.cons.injEq, and_true, hmap, Except.toOption, Option.map_some,
    Option.some.injEq] at hcomputed
  obtain ⟨⟨hfields, hproperties⟩, hcolumn, hparents, hlists⟩ := hcomputed
  obtain ⟨found, hfound, hdivided⟩ := hdivides (by rw [hparents]; decide)
  have hstart := hruns.divides.start
  rw [hcolumn, hfields] at hstart
  rw [hproperties, hlists] at hdivided
  exact ⟨assembly, runs, hok, hruns, hstart, rows, hmap, hparents, found, hfound, hdivided⟩

end Assembly

end ApiCensus
