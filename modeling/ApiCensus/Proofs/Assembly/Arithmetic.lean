/-
  The arithmetic of words.

  Numbers of rows are words of 32 bits, and positions are words of 32 bits or more. What is read
  of an opened assembly is the same in words, whatever its rows hold.

  * `Run.clampOn`, `Table.getOn`, `RowIterator.step`, `Assembly.runOfTypeOn`,
    `Assembly.findOwnersOn`: what is done in words.
  * `Table.Fits`: the rows of a table take less than four gigabytes, so there are less than 2 ^ 31
    of them. Then nothing is missing: `Table.getOn_eq`, `RowIterator.calls_eq`, `Table.runsOn_eq`.
  * `Assembly.arithmetic_exact`: in an opened assembly every table fits, and nothing is missing.
-/
import ApiCensus.Assembly.Members
import ApiCensus.Proofs.Assembly.Opening
import ApiCensus.Proofs.Assembly.Owners
import ApiCensus.Proofs.Checked
import ApiCensus.Proofs.Metadata.Columns

namespace ApiCensus

/-! ## Parts of runs -/

/-- The part of a run that lies between 1 and the number behind the last entry, in words. -/
def Run.clampOn (run : Run) (bound : Nat) : Checked Run := do
  let start ← Checked.clamp run.start 1 bound
  let stop ← Checked.clamp run.stop start bound
  pure { start, stop }

theorem Run.clampOn_eq {bound : Nat} (h : 0 < bound) (run : Run) :
    run.clampOn bound = pure (run.clamp bound) := by
  have hstart : min (max run.start 1) bound ≤ bound := Nat.min_le_right _ _
  rw [clampOn, Checked.clamp, if_pos (Nat.succ_le_of_lt h), pure_bind, Checked.clamp,
    if_pos hstart, pure_bind]
  rfl

/-- A list that wraps around has no number behind its last entry. -/
example : Run.clampOn { start := 1, stop := 1 } 0 = .missing := rfl

/-! ## Rows -/

namespace Table

variable {α : Type} [MetadataRow α] {table : Table α} {word : Nat}

/-- The row of a given number, found in words. -/
def getOn (word : Nat) (table : Table α) (rid : Nat) : Checked α :=
  if rid = 0 ∨ table.count < rid then
    throw (.malformed (.rowNumber rid (MetadataRow.table α) table.count))
  else do
    let before ← Checked.sub rid 1
    let pos ← Checked.mul word before (table.layout.rowSize (MetadataRow.table α))
    .ofExcept ((MetadataRow.read table.layout rid : Attempt Cursor α).result
      { data := table.data, pos })

/-- The rows of a table take less than four gigabytes. -/
def Fits (table : Table α) : Prop :=
  table.count * table.layout.rowSize (MetadataRow.table α) < 2 ^ 32

/-- A row takes two bytes or more. -/
theorem Fits.count_lt (h : table.Fits) : table.count < 2 ^ 31 := by
  have hrow := table.layout.two_le_rowSize (MetadataRow.table α)
  have hrows := Nat.mul_le_mul_left table.count hrow
  rw [Fits] at h
  omega

theorem getOn_eq (h : table.Fits) (hword : 32 ≤ word) (rid : Nat) :
    table.getOn word rid = .ofExcept (table.get rid) := by
  rw [getOn, get]
  split
  · rfl
  · next hrid =>
    have hbefore : rid - 1 ≤ table.count := by omega
    have hpos : (rid - 1) * table.layout.rowSize (MetadataRow.table α) < 2 ^ word :=
      calc _ ≤ table.count * table.layout.rowSize (MetadataRow.table α) :=
            Nat.mul_le_mul_right _ hbefore
        _ < 2 ^ 32 := h
        _ ≤ 2 ^ word := Nat.pow_le_pow_right Nat.two_pos hword
    rw [Checked.sub, if_pos (by omega), pure_bind, Checked.mul, if_pos hpos, pure_bind]

theorem getElem?_rows (table : Table α) {index : Nat} (h : index < table.count) :
    table.rows[index]? = some (table.get (index + 1)) := by
  rw [rows, List.getElem?_map, List.getElem?_range h]
  rfl

theorem getElem?_rows_of_le (table : Table α) {index : Nat} (h : table.count ≤ index) :
    table.rows[index]? = none := by
  rw [rows, List.getElem?_eq_none_iff, List.length_map, List.length_range]
  exact h

end Table

/-- The rows of a table that are still to come. -/
structure RowIterator (α : Type) where
  table : Table α
  /-- The number of the next row. -/
  next : Nat := 1

namespace RowIterator

variable {α : Type} [MetadataRow α] {table : Table α} {word : Nat}

/-- The next row, if there is one. -/
def step (word : Nat) (rows : RowIterator α) :
    Checked (Option (Except Fault α) × RowIterator α) :=
  if rows.table.count < rows.next then pure (none, rows)
  else do
    let next ← Checked.add 32 rows.next 1
    let row ← ExceptT.lift (rows.table.getOn word rows.next).run
    pure (some row, { rows with next })

/-- What several steps give, whether or not there is a row for each of them. -/
def calls (word : Nat) : Nat → RowIterator α →
    Checked (List (Option (Except Fault α)) × RowIterator α)
  | 0, rows => pure ([], rows)
  | count + 1, rows => do
    let (first, rows) ← rows.step word
    let (others, rows) ← calls word count rows
    pure (first :: others, rows)

/-- The number of rows that are still to come. -/
def sizeHint (rows : RowIterator α) : Checked Nat := do
  let stop ← Checked.add 32 rows.table.count 1
  pure (stop - rows.next)

/-- All rows that are still to come, up to the first one that cannot be read. The loop has to end
    after a number of steps. -/
def drain (word : Nat) : Nat → RowIterator α → Checked (List α)
  | 0, _ => .missing
  | steps + 1, rows => do
    match ← rows.step word with
    | (none, _) => pure []
    | (some row, rows) => do
      let row ← Checked.ofExcept row
      let others ← drain word steps rows
      pure (row :: others)

theorem step_eq (h : table.Fits) (hword : 32 ≤ word) {passed : Nat} (hle : passed ≤ table.count) :
    step word { table, next := passed + 1 } =
      pure (table.rows[passed]?, { table, next := min (passed + 1) table.count + 1 }) := by
  rw [step]
  rcases Nat.eq_or_lt_of_le hle with rfl | hlt
  · rw [if_pos (Nat.lt_succ_self _), table.getElem?_rows_of_le (Nat.le_refl _),
      Nat.min_eq_right (Nat.le_succ _)]
  · have hcount := h.count_lt
    have hnext : passed + 1 + 1 < 2 ^ 32 := by omega
    rw [if_neg (Nat.not_lt_of_le (Nat.succ_le_of_lt hlt)), Checked.add, if_pos hnext, pure_bind,
      Table.getOn_eq h hword, table.getElem?_rows hlt, Nat.min_eq_left (Nat.succ_le_of_lt hlt)]
    rfl

theorem map_rows_of_le {first count : Nat} (h : table.count ≤ first) :
    (List.range' first count).map (table.rows[·]?) = List.replicate count none := by
  refine List.eq_replicate_iff.2 ⟨by rw [List.length_map, List.length_range'], fun row hrow => ?_⟩
  obtain ⟨index, hindex, rfl⟩ := List.mem_map.1 hrow
  exact table.getElem?_rows_of_le (Nat.le_trans h (List.mem_range'_1.1 hindex).1)

/-- However many steps are taken, they give the rows one after the other, and nothing behind the
    last one. -/
theorem calls_eq (h : table.Fits) (hword : 32 ≤ word) (count : Nat) {passed : Nat}
    (hle : passed ≤ table.count) :
    calls word count { table, next := passed + 1 } =
      pure ((List.range' passed count).map (table.rows[·]?),
        { table, next := min (passed + count) table.count + 1 }) := by
  induction count generalizing passed with
  | zero =>
    have hnext : min (passed + 0) table.count = passed := Nat.min_eq_left hle
    rw [calls, hnext]
    rfl
  | succ count ih =>
    have hothers : (List.range' (min (passed + 1) table.count) count).map (table.rows[·]?) =
        (List.range' (passed + 1) count).map (table.rows[·]?) := by
      rcases Nat.le_total (passed + 1) table.count with hmore | hend
      · rw [Nat.min_eq_left hmore]
      · rw [Nat.min_eq_right hend, map_rows_of_le (Nat.le_refl _), map_rows_of_le hend]
    have hnext : min (min (passed + 1) table.count + count) table.count =
        min (passed + (count + 1)) table.count := by omega
    rw [calls, step_eq h hword hle, pure_bind]
    dsimp only
    rw [ih (Nat.min_le_right _ _), pure_bind, hothers, hnext, List.range'_succ]
    rfl

theorem drain_eq (h : table.Fits) (hword : 32 ≤ word) {passed left : Nat}
    (hleft : passed + left = table.count) :
    drain word (left + 1) { table, next := passed + 1 } =
      .ofExcept ((table.rows.drop passed).mapM id) := by
  have hlength : table.rows.length = table.count := by rw [Table.rows, List.length_map,
    List.length_range]
  rw [drain, step_eq h hword (by omega), pure_bind]
  induction left generalizing passed with
  | zero =>
    have hend : table.rows.length ≤ passed := by omega
    rw [List.getElem?_eq_none hend, List.drop_of_length_le hend]
    rfl
  | succ left ih =>
    have hlt : passed < table.rows.length := by omega
    have hnext : min (passed + 1) table.count = passed + 1 := by omega
    rw [List.getElem?_eq_getElem hlt, List.drop_eq_getElem_cons hlt, List.mapM_cons,
      Checked.ofExcept_bind, hnext]
    dsimp only
    rw [drain, step_eq h hword (by omega), pure_bind, ih (by omega)]
    refine bind_congr fun row => ?_
    rw [Checked.ofExcept_bind]
    rfl

/-- A loop over all rows of a table ends with them. -/
theorem drain_start (h : table.Fits) (hword : 32 ≤ word) :
    drain word (table.count + 1) { table } = .ofExcept (table.rows.mapM id) :=
  drain_eq h hword (Nat.zero_add _)

end RowIterator

/-! ## Runs -/

namespace Table

variable {α : Type} [MetadataRow α] {table : Table α} {word bound : Nat} {owner first : α → Nat}

/-- The end of the run of a row: the first entry of the next row, if there is one. -/
def stopOn (word : Nat) (table : Table α) (first : α → Nat) (count bound rid : Nat) :
    Checked Nat :=
  if rid < count then do
    let next ← Checked.add 32 rid 1
    first <$> table.getOn word next
  else
    pure bound

/-- Adds the run of the owner that a row of a map names. -/
def insertRunOn (word : Nat) (table : Table α) (owner first : α → Nat) (bound : Nat)
    (runs : Std.HashMap Nat Run) (rid : Nat) : Checked (Std.HashMap Nat Run) := do
  let row ← table.getOn word rid
  let stop ← table.stopOn word first table.count bound rid
  let run ← Run.clampOn { start := first row, stop } bound
  pure (runs.insert (owner row) run)

/-- The runs of all owners that a map names. -/
def runsOn (word : Nat) (table : Table α) (owner first : α → Nat) (bound : Nat) :
    Checked (Std.HashMap Nat Run) :=
  (List.range' 1 table.count).foldlM (table.insertRunOn word owner first bound) ∅

theorem stopOn_eq (h : table.Fits) (hword : 32 ≤ word) {count : Nat} (hcount : count < 2 ^ 31)
    (rid : Nat) : table.stopOn word first count bound rid =
      if rid < count then .ofExcept (first <$> table.get (rid + 1)) else pure bound := by
  rw [stopOn]
  split
  · have hnext : rid + 1 < 2 ^ 32 := by omega
    rw [Checked.add, if_pos hnext, pure_bind, getOn_eq h hword, Checked.ofExcept_map]
  · rfl

section

variable {rows : List α} (hrows : table.rows = rows.map .ok)
include hrows

theorem count_of_rows : table.count = rows.length := by
  have hlength := congrArg List.length hrows
  rwa [Table.rows, List.length_map, List.length_map, List.length_range] at hlength

theorem get_of_rows {index : Nat} {row : α} (h : rows[index]? = some row) :
    table.get (index + 1) = .ok row := by
  have hlt : index < table.count := by
    rw [count_of_rows hrows]
    exact (List.getElem?_eq_some_iff.1 h).1
  have hrow := table.getElem?_rows hlt
  rw [hrows, List.getElem?_map, h] at hrow
  exact (Option.some.inj hrow).symm

end

/-- The run of a row is added, and then those of the rows behind it. -/
theorem foldlM_insertRunOn (h : table.Fits) (hword : 32 ≤ word) (hbound : 0 < bound)
    {before rows : List α} (hrows : table.rows = (before ++ rows).map .ok)
    (runs : Std.HashMap Nat Run) :
    (List.range' (before.length + 1) rows.length).foldlM
        (table.insertRunOn word owner first bound) runs =
      pure (Assembly.runsOf bound (rows.map fun row => (owner row, first row)) runs) := by
  induction rows generalizing before runs with
  | nil => rfl
  | cons row rows ih =>
    have hcount := count_of_rows hrows
    rw [List.length_append, List.length_cons] at hcount
    have hrow : table.get (before.length + 1) = .ok row :=
      get_of_rows hrows (by simp)
    have hstop : table.stopOn word first table.count bound (before.length + 1) =
        pure ((rows.map first).headD bound) := by
      rw [stopOn_eq h hword h.count_lt]
      cases rows with
      | nil => exact if_neg (by rw [hcount]; exact Nat.lt_irrefl _)
      | cons next rows =>
        have hnext : table.get (before.length + 1 + 1) = .ok next :=
          get_of_rows hrows (by simp)
        rw [if_pos (by rw [hcount, List.length_cons]; omega), hnext]
        rfl
    have hstep : table.insertRunOn word owner first bound runs (before.length + 1) =
        pure (runs.insert (owner row)
          (Run.clamp { start := first row, stop := (rows.map first).headD bound } bound)) := by
      rw [insertRunOn, getOn_eq h hword, hrow, Checked.ofExcept_ok, pure_bind, hstop, pure_bind,
        Run.clampOn_eq hbound, pure_bind]
    have hothers := @ih (before ++ [row]) (by rw [hrows, List.append_assoc]; rfl)
    rw [List.length_append, List.length_singleton] at hothers
    rw [List.length_cons, List.range'_succ, List.foldlM_cons, hstep, pure_bind, hothers]
    cases rows <;> rfl

theorem runsOn_eq (h : table.Fits) (hword : 32 ≤ word) (hbound : 0 < bound) {rows : List α}
    (hrows : table.rows = rows.map .ok) : table.runsOn word owner first bound =
      pure (Assembly.runsOf bound (rows.map fun row => (owner row, first row)) ∅) := by
  have hstart : table.rows = ([] ++ rows).map .ok := hrows
  rw [runsOn, count_of_rows hrows]
  exact foldlM_insertRunOn h hword hbound hstart ∅

end Table

namespace Assembly

variable {assembly : Assembly} {image : Image} {word : Nat}

/-- The number behind the last entry of a list, in words. -/
def listStop (assembly : Assembly) (entries members : TableId) : Checked Nat :=
  Checked.add 32 (assembly.entryCount entries members) 1

/-- The run of list entries of a type, found in words. -/
def runOfTypeOn (word : Nat) (assembly : Assembly) (type : TypeDefRow) (first : TypeDefRow → Nat)
    (entries members : TableId) : Checked Run := do
  let bound ← assembly.listStop entries members
  let stop ← (assembly.table TypeDefRow).stopOn word first (assembly.rowCount .typeDef) bound
    type.rid
  Run.clampOn { start := first type, stop } bound

/-- Every row of a table, as a loop over the rows finds them. -/
def allRowsOn (word : Nat) (assembly : Assembly) (α : Type) [MetadataRow α] : Checked (List α) :=
  RowIterator.drain word ((assembly.table α).count + 1) { table := assembly.table α }

/-- Finds out in words what each row belongs to. -/
def findOwnersOn (word : Nat) (assembly : Assembly) : Checked OwnerIndexes := do
  let attributes ← assembly.allRowsOn word CustomAttributeRow
  let nested ← assembly.allRowsOn word NestedClassRow
  let semantics ← assembly.allRowsOn word MethodSemanticsRow
  let interfaces ← assembly.allRowsOn word InterfaceImplRow
  let methodImpls ← assembly.allRowsOn word MethodImplRow
  let propertyStop ← assembly.listStop .propertyPtr .property
  let properties ← (assembly.table PropertyMapRow).runsOn word PropertyMapRow.parent
    PropertyMapRow.propertyList propertyStop
  let eventStop ← assembly.listStop .eventPtr .event
  let events ← (assembly.table EventMapRow).runsOn word EventMapRow.parent EventMapRow.eventList
    eventStop
  pure
    { attributes := RowIndex.group (attributes.map fun row => (row.parent.token, row.rid))
      nested := RowIndex.group (nested.map fun row => (row.enclosing, row.nested))
      enclosing := nested.foldl (fun types row => types.insert row.nested row.enclosing) ∅
      semantics := RowIndex.group (semantics.map fun row => (row.association.token, row.rid))
      interfaces := RowIndex.group (interfaces.map fun row => (row.owner, row.rid))
      methodImpls := RowIndex.group (methodImpls.map fun row => (row.owner, row.rid))
      properties
      events }

/-! ## What holds of an opened assembly -/

/-- The streams of an opened assembly lie in the bytes of its image, and none of them has four
    gigabytes. -/
theorem streams_inside (h : ofImage image = .ok assembly) :
    ∃ start, assembly.image.offset assembly.runtime.metadata.address = .ok start ∧
      ∀ entry ∈ assembly.root.streams,
        start + entry.offset + entry.size ≤ image.data.size ∧ entry.size < 2 ^ 32 := by
  obtain ⟨rfl, start, metadata, hstart, hmetadata, hroot, -⟩ := ofImage_eq_ok h
  obtain ⟨hinside, hsize⟩ := Image.slice_eq_ok hmetadata
  refine ⟨start, hstart, fun entry hentry => ?_⟩
  obtain ⟨hstop, hbound⟩ := MetadataRoot.inside_of_ofBytes hroot entry hentry
  rw [MetadataRoot.extentBound] at hbound
  constructor <;> omega

/-- The tables of an opened assembly lie in less than four gigabytes. -/
theorem exists_tiled (h : ofImage image = .ok assembly) :
    ∃ bytes, bytes.size < 2 ^ 32 ∧ assembly.stream.Tiled bytes ∧
      ∀ (α : Type) [MetadataRow α], assembly.table α = assembly.stream.table bytes := by
  obtain ⟨start, hstart, hslice, entry, hentry, hstream, htable⟩ := streams_of_ofImage h
  obtain ⟨_, -, hinside⟩ := streams_inside h
  refine ⟨_, ?_, TableStream.tiled_of_ofBytes hstream, htable⟩
  rw [(Image.slice_eq_ok (hslice entry hentry)).2]
  exact (hinside entry hentry).2

theorem rows_fit (h : ofImage image = .ok assembly) (table : TableId) :
    assembly.rowCount table * assembly.stream.layout.rowSize table < 2 ^ 32 := by
  obtain ⟨bytes, hsize, htiled, -⟩ := exists_tiled h
  have hrows : _ = assembly.rowCount table * _ := htiled.size table
  have hinside := htiled.inside table
  omega

theorem rowCount_lt (h : ofImage image = .ok assembly) (table : TableId) :
    assembly.rowCount table < 2 ^ 31 := by
  have hfits := rows_fit h table
  have hrow := assembly.stream.layout.two_le_rowSize table
  have hrows := Nat.mul_le_mul_left (assembly.rowCount table) hrow
  omega

theorem fits_of_ofImage (h : ofImage image = .ok assembly) (α : Type) [MetadataRow α] :
    (assembly.table α).Fits := by
  obtain ⟨bytes, -, htiled, htable⟩ := exists_tiled h
  rw [htable, htiled.table_eq]
  exact rows_fit h (MetadataRow.table α)

theorem entryCount_lt (h : ofImage image = .ok assembly) (entries members : TableId) :
    assembly.entryCount entries members < 2 ^ 31 := by
  have hentries := rowCount_lt h entries
  rw [entryCount]
  split
  · exact rowCount_lt h members
  · exact hentries

theorem listStop_eq (h : ofImage image = .ok assembly) (entries members : TableId) :
    assembly.listStop entries members = pure (assembly.entryCount entries members + 1) := by
  have hcount := entryCount_lt h entries members
  exact if_pos (by omega)

theorem allRowsOn_eq (h : ofImage image = .ok assembly) (hword : 32 ≤ word) {α : Type}
    [MetadataRow α] {rows : List α} (hrows : assembly.allRows α = .ok rows) :
    assembly.allRowsOn word α = pure rows := by
  rw [allRowsOn, RowIterator.drain_start (fits_of_ofImage h α) hword]
  exact congrArg Checked.ofExcept hrows

theorem rows_eq_of_allRows {α : Type} [MetadataRow α] {rows : List α}
    (h : assembly.allRows α = .ok rows) : (assembly.table α).rows = rows.map .ok := by
  have hrows : rows.map .ok = (assembly.table α).rows.map id :=
    map_eq_of_mapM_eq_ok (fun _ _ hrow => hrow.symm) h
  rw [hrows, List.map_id]

theorem findOwnersOn_eq (h : ofImage image = .ok assembly) (hword : 32 ≤ word) :
    assembly.findOwnersOn word = pure assembly.owners := by
  obtain ⟨attributes, nested, semantics, interfaces, methodImpls, properties, events,
    ⟨hattributes, hnested, hsemantics, hinterfaces, hmethodImpls, hproperties, hevents⟩, howners⟩ :=
    findOwners_eq_ok (indexed_of_ofImage h)
  rw [findOwnersOn, allRowsOn_eq h hword hattributes, pure_bind, allRowsOn_eq h hword hnested,
    pure_bind, allRowsOn_eq h hword hsemantics, pure_bind, allRowsOn_eq h hword hinterfaces,
    pure_bind, allRowsOn_eq h hword hmethodImpls, pure_bind, listStop_eq h, pure_bind,
    Table.runsOn_eq (fits_of_ofImage h _) hword (Nat.succ_pos _) (rows_eq_of_allRows hproperties),
    pure_bind, listStop_eq h, pure_bind,
    Table.runsOn_eq (fits_of_ofImage h _) hword (Nat.succ_pos _) (rows_eq_of_allRows hevents),
    pure_bind, howners]

theorem runOfTypeOn_eq (h : ofImage image = .ok assembly) (hword : 32 ≤ word) (type : TypeDefRow)
    (first : TypeDefRow → Nat) (entries members : TableId) :
    assembly.runOfTypeOn word type first entries members = .ofExcept
      (assembly.runOfType type first (assembly.entryCount entries members + 1)) := by
  rw [runOfTypeOn, listStop_eq h, pure_bind,
    Table.stopOn_eq (fits_of_ofImage h _) hword (rowCount_lt h .typeDef), runOfType]
  by_cases hnext : type.rid < assembly.rowCount .typeDef
  · rw [if_pos hnext, if_pos hnext, row]
    cases (assembly.table TypeDefRow).get (type.rid + 1) with
    | error fault => rfl
    | ok next => exact Run.clampOn_eq (Nat.succ_pos _) _
  · rw [if_neg hnext, if_neg hnext]
    exact Run.clampOn_eq (Nat.succ_pos _) _

/-- **In an opened assembly the streams lie in the bytes of its image, and every table has less
    than 2 ^ 31 rows. So nothing is missing in words: the numbers behind the last entries, the part
    of a run whatever it is, what belongs to what, the runs of types, any row of a table and any
    number of steps through its rows are as they are found without a bound on numbers.** -/
theorem arithmetic_exact (h : ofImage image = .ok assembly) :
    (∃ start, assembly.image.offset assembly.runtime.metadata.address = .ok start ∧
      ∀ entry ∈ assembly.root.streams, start + entry.offset + entry.size ≤ image.data.size) ∧
    (∀ table, assembly.rowCount table < 2 ^ 31) ∧
    (∀ entries members,
      let bound := assembly.entryCount entries members + 1
      assembly.listStop entries members = pure bound ∧
        ∀ run : Run, run.clampOn bound = pure (run.clamp bound)) ∧
    ∀ word, 32 ≤ word →
      assembly.findOwnersOn word = pure assembly.owners ∧
      (∀ type first entries members,
        assembly.runOfTypeOn word type first entries members = .ofExcept
          (assembly.runOfType type first (assembly.entryCount entries members + 1))) ∧
      ∀ (α : Type) [MetadataRow α],
        let table := assembly.table α
        (∀ rid, table.getOn word rid = .ofExcept (table.get rid)) ∧
        ∀ count, ∃ rows, RowIterator.calls word count { table } =
            pure ((List.range count).map (table.rows[·]?), rows) ∧
          rows.sizeHint = pure (table.count - count) := by
  obtain ⟨start, hstart, hinside⟩ := streams_inside h
  refine ⟨⟨start, hstart, fun entry hentry => (hinside entry hentry).1⟩, rowCount_lt h,
    fun entries members => ⟨listStop_eq h entries members, Run.clampOn_eq (Nat.succ_pos _)⟩,
    fun word hword => ⟨findOwnersOn_eq h hword, runOfTypeOn_eq h hword, fun α _ => ?_⟩⟩
  have hfits := fits_of_ofImage h α
  refine ⟨Table.getOn_eq hfits hword, fun count => ?_⟩
  have hcalls := RowIterator.calls_eq hfits hword count (Nat.zero_le _)
  rw [← List.range_eq_range'] at hcalls
  refine ⟨_, hcalls, ?_⟩
  have hcount := hfits.count_lt
  have hstop : (assembly.table α).count + 1 < 2 ^ 32 := by omega
  have hleft : (assembly.table α).count + 1 - (min (0 + count) (assembly.table α).count + 1) =
      (assembly.table α).count - count := by omega
  rw [RowIterator.sizeHint, Checked.add, if_pos hstop, pure_bind, hleft]

/-- Three types and three fields. First entries lie before a list or far behind its end. -/
def strayRows : TableRows
  | .assembly => [[0, 1, 0, 0, 0, 0, 0, 0, 0]]
  | .typeDef => [[0, 0, 0, 0, 0xFFFF, 1], [0, 0, 0, 0, 0, 0xFFFF], [0, 0, 0, 0, 2, 1]]
  | .field => List.replicate 3 [6, 0, 0]
  | .propertyMap => [[0xFFFF, 0xFFFF], [0, 0]]
  | _ => []

theorem arithmetic_exact_stray : ∃ assembly, ofImage (imageOf strayRows) = .ok assembly ∧
    assembly.listStop .fieldPtr .field = pure 4 ∧
    (∀ run : Run, run.clampOn 4 = pure (run.clamp 4)) ∧
    assembly.findOwnersOn 32 = pure assembly.owners ∧
    ∃ rows, RowIterator.calls 64 2 { table := assembly.table TypeDefRow } =
        pure ((List.range 2).map ((assembly.table TypeDefRow).rows[·]?), rows) ∧
      rows.sizeHint = pure 1 := by
  have hcomputed : (ofImage (imageOf strayRows)).toOption.map (fun assembly =>
      (assembly.entryCount .fieldPtr .field, (assembly.table TypeDefRow).count)) =
      some (3, 3) := by
    decide +kernel
  obtain ⟨assembly, hok, hcomputed⟩ := exists_ok_of_map hcomputed
  obtain ⟨hentries, hcount⟩ := Prod.mk.inj hcomputed
  obtain ⟨-, -, hlists, hwords⟩ := arithmetic_exact hok
  have hfields := hlists .fieldPtr .field
  rw [hentries] at hfields
  have hsteps := ((hwords 64 (by decide)).2.2 TypeDefRow).2 2
  rw [hcount] at hsteps
  exact ⟨assembly, hok, hfields.1, hfields.2, (hwords 32 (Nat.le_refl 32)).1, hsteps⟩

end Assembly

end ApiCensus
