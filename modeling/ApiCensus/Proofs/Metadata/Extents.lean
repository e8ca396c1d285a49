/-
  Where the tables lie in the table stream.

  * `TableStream.marked`: how many tables a header marks as there.
  * `Layout.spanOf`: the number of bytes of the rows of several tables.
  * `TableStream.Tiled`: the row counts are those that the header declares, and the tables lie
    one behind the other, in the order of their numbers, inside the stream.
  * `TableStream.tiled_of_ofBytes`: so they do in every stream whose header is read.
  * `TableStream.table_eq`: then the rows of a table are those of its place.
-/
import ApiCensus.Metadata.TableStream
import ApiCensus.Proofs.Bytes.Passing

namespace ApiCensus

open Attempt

/-- A position is one of the bytes of a table. -/
def TableExtent.Holds (extent : TableExtent) (pos : Nat) : Prop :=
  extent.offset ≤ pos ∧ pos < extent.offset + extent.size

/-! ## Tables in order -/

namespace TableId

theorem number_inj {a b : TableId} : a.number = b.number ↔ a = b := by
  refine ⟨fun h => ?_, congrArg number⟩
  have hb := ofNumber?_number b
  rw [← h, ofNumber?_number] at hb
  exact Option.some.inj hb

/-- The tables with smaller numbers. -/
def before (table : TableId) : List TableId :=
  all.take table.number

theorem drop_number (table : TableId) :
    all.drop table.number = table :: all.drop (table.number + 1) := by
  cases table <;> rfl

theorem all_eq_before (table : TableId) :
    all = table.before ++ table :: all.drop (table.number + 1) := by
  rw [before, ← drop_number, List.take_append_drop]

theorem ofNat_number (table : TableId) : TableId.ofNat table.number = table := by
  cases table <;> rfl

theorem exists_number {n : Nat} (h : n < count) : ∃ table : TableId, table.number = n := by
  have hall : ∀ n < count, (TableId.ofNat n).number = n := by decide
  exact ⟨_, hall n h⟩

theorem mem_all (table : TableId) : table ∈ all := by
  cases table <;> decide

theorem nodup_all : all.Nodup := by decide

/-- A table stands behind those with smaller numbers. -/
theorem before_eq_of_lt {a b : TableId} (h : a.number < b.number) :
    ∃ between, b.before = a.before ++ a :: between := by
  refine ⟨(all.drop (a.number + 1)).take (b.number - (a.number + 1)), ?_⟩
  have hlen : a.before.length = a.number := by
    rw [before, List.length_take]
    exact Nat.min_eq_left (Nat.le_of_lt a.number_lt)
  have hgap : b.number - a.number = b.number - (a.number + 1) + 1 := by omega
  conv => lhs; rw [before, all_eq_before a]
  rw [List.take_append, hlen, List.take_of_length_le (by omega), hgap, List.take_succ_cons]

end TableId

namespace Layout

variable (layout : Layout)

/-- The number of bytes of the rows of a table. -/
def tableBytes (table : TableId) : Nat :=
  layout.rowCount table * layout.rowSize table

/-- The number of bytes of the rows of several tables. -/
def spanOf : List TableId → Nat
  | [] => 0
  | table :: tables => layout.tableBytes table + spanOf tables

theorem spanOf_append (tables others : List TableId) :
    layout.spanOf (tables ++ others) = layout.spanOf tables + layout.spanOf others := by
  induction tables with
  | nil => simp [spanOf]
  | cons table tables ih => rw [List.cons_append, spanOf, spanOf, ih, Nat.add_assoc]

theorem tableBytes_of_rowCount {table : TableId} (h : layout.rowCount table = 0) :
    layout.tableBytes table = 0 := by
  rw [tableBytes, h, Nat.zero_mul]

end Layout

namespace TableStream

/-! ## Placing the tables -/

/-- The place of a table among those of all tables. -/
def extentIn (extents : Vector TableExtent TableId.count) (table : TableId) : TableExtent :=
  extents.get ⟨table.number, table.number_lt⟩

theorem extentIn_set {extents : Vector TableExtent TableId.count} {table other : TableId}
    {extent : TableExtent} :
    extentIn (extents.set table.number extent table.number_lt) other =
      if table = other then extent else extentIn extents other := by
  have hother := other.number_lt
  show (extents.set table.number extent table.number_lt)[other.number] = _
  rw [Vector.getElem_set]
  simp only [TableId.number_inj]
  rfl

variable {layout : Layout} {size offset : Nat}
  {extents placed : Vector TableExtent TableId.count} {tables : List TableId}

/-- Tables that the stream holds have their places. -/
theorem place_ok (h : offset + layout.spanOf tables ≤ size) :
    ∃ placed, place layout size extents offset tables = .ok placed := by
  induction tables generalizing offset extents with
  | nil => exact ⟨extents, rfl⟩
  | cons table tables ih =>
    rw [Layout.spanOf] at h
    rw [place]
    split
    · exact ih (by omega)
    · rw [← Layout.tableBytes, if_neg (by omega)]
      exact ih (by omega)

/-- Nothing else has another place afterwards. -/
theorem place_other (h : place layout size extents offset tables = .ok placed) {other : TableId}
    (ho : other ∉ tables) : extentIn placed other = extentIn extents other := by
  induction tables generalizing offset extents with
  | nil => rw [Except.ok.inj h]
  | cons table tables ih =>
    obtain ⟨hne, ho⟩ : other ≠ table ∧ other ∉ tables := by simpa using ho
    rw [place] at h
    split at h
    · exact ih h ho
    · simp only at h
      split at h
      · exact absurd h (by simp)
      · rw [ih h ho, extentIn_set, if_neg (Ne.symm hne)]

/-- A table with rows lies behind those before it, inside the stream. -/
theorem place_eq_ok (h : place layout size extents offset tables = .ok placed)
    (hnodup : tables.Nodup) {front back : List TableId} {table : TableId}
    (ht : tables = front ++ table :: back) :
    if layout.rowCount table = 0 then extentIn placed table = extentIn extents table
    else
      extentIn placed table =
          { offset := offset + layout.spanOf front, size := layout.tableBytes table } ∧
        offset + layout.spanOf front + layout.tableBytes table ≤ size := by
  induction tables generalizing offset extents front with
  | nil => simp at ht
  | cons first tables ih =>
    obtain ⟨hfirst, hrest⟩ := List.nodup_cons.1 hnodup
    rw [place] at h
    cases front with
    | nil =>
      obtain ⟨rfl, rfl⟩ := List.cons.inj ht
      split at h
      · rename_i hcount
        rw [if_pos hcount]
        exact place_other h hfirst
      · rename_i hcount
        simp only at h
        split at h
        · exact absurd h (by simp)
        · rename_i hsize
          rw [if_neg hcount, place_other h hfirst, extentIn_set, if_pos rfl]
          exact ⟨rfl, Nat.le_of_not_lt hsize⟩
    | cons _ front =>
      obtain ⟨rfl, rfl⟩ := List.cons.inj ht
      have hne : first ≠ table := fun he => hfirst (by simp [he])
      split at h
      · rename_i hcount
        rw [Layout.spanOf, layout.tableBytes_of_rowCount hcount, Nat.zero_add]
        exact ih h hrest rfl
      · simp only at h
        split at h
        · exact absurd h (by simp)
        · have hplaced := ih h hrest rfl
          rw [extentIn_set, if_neg hne] at hplaced
          rw [Layout.spanOf, ← Nat.add_assoc]
          exact hplaced

/-- Where a table lies among all tables. -/
theorem place_all {table : TableId}
    (h : place layout size (.replicate _ {}) offset TableId.all = .ok placed) :
    if layout.rowCount table = 0 then extentIn placed table = {}
    else
      extentIn placed table =
          { offset := offset + layout.spanOf table.before, size := layout.tableBytes table } ∧
        offset + layout.spanOf table.before + layout.tableBytes table ≤ size := by
  have hp := place_eq_ok h TableId.nodup_all table.all_eq_before
  have hnone : extentIn (Vector.replicate TableId.count ({} : TableExtent)) table = {} :=
    Vector.getElem_replicate _
  rwa [hnone] at hp

theorem extentIn_of_place {table : TableId}
    (h : place layout size (.replicate _ {}) offset TableId.all = .ok placed)
    (hrows : layout.rowCount table ≠ 0) : extentIn placed table =
      { offset := offset + layout.spanOf table.before, size := layout.tableBytes table } := by
  have hp := if_neg hrows ▸ place_all h
  exact hp.1

/-! ## The header -/

/-- How many of the tables with numbers from `number` on are marked as there, of which `left`
    are looked at. -/
def marked (valid number : Nat) : Nat → Nat
  | 0 => 0
  | left + 1 => (valid.testBit number).toNat + marked valid (number + 1) left

/-- What is done about one table: its row count is read if the table is marked. -/
theorem readCounts_succ {valid number left : Nat} {counts rows : Vector Nat TableId.count}
    {cursor cursor' : Cursor}
    (h : readCounts valid counts number (left + 1) cursor = (.ok rows, cursor')) :
    ∃ counts' : Vector Nat TableId.count,
      readCounts valid counts' (number + 1) left
          (cursor.forward (4 * (valid.testBit number).toNat)) = (.ok rows, cursor') ∧
      (∀ i (hi : i < TableId.count), i ≠ number → counts'[i] = counts[i]) ∧
      ∀ hn : number < TableId.count, counts'[number] =
        if valid.testBit number then LittleEndian.valueAt cursor.data cursor.pos 4
        else counts[number] := by
  rw [readCounts] at h
  split at h
  · rename_i hbit
    split at h
    · rename_i hnumber
      obtain ⟨count, next, hcount, h⟩ := bind_eq_ok h
      obtain ⟨-, hvalue, rfl⟩ := Cursor.number_eq_ok hcount
      rw [hbit]
      refine ⟨counts.set number count, h, fun i hi hne => ?_, fun _ => ?_⟩
      · exact Vector.getElem_set_ne _ _ (Ne.symm hne)
      · rw [Vector.getElem_set_self, if_pos rfl, hvalue]
    · exact absurd (congrArg Prod.fst h) (by simp)
  · rename_i hbit
    rw [Bool.not_eq_true] at hbit
    rw [hbit]
    exact ⟨counts, h, fun _ _ _ => rfl, fun _ => rfl⟩

/-- The row counts stand in the order of the tables, one for each table that is marked. -/
theorem readCounts_eq_ok {valid number left : Nat} {counts rows : Vector Nat TableId.count}
    {cursor cursor' : Cursor}
    (h : readCounts valid counts number left cursor = (.ok rows, cursor')) :
    cursor' = cursor.forward (4 * marked valid number left) ∧
      ∀ i (hi : i < TableId.count),
        (i < number → rows[i] = counts[i]) ∧
        ∀ passed, i = number + passed → passed < left → rows[i] =
          if valid.testBit i then
            LittleEndian.valueAt cursor.data (cursor.pos + 4 * marked valid number passed) 4
          else counts[i] := by
  induction left generalizing number counts cursor with
  | zero =>
    obtain ⟨hrows, hcursor⟩ := Prod.mk.inj h
    refine ⟨hcursor.symm, fun i hi => ⟨fun _ => ?_, fun _ _ hlt => absurd hlt (by omega)⟩⟩
    rw [Except.ok.inj hrows]
  | succ left ih =>
    obtain ⟨counts', hrest, hother, hthis⟩ := readCounts_succ h
    obtain ⟨hcursor, hrows⟩ := ih hrest
    refine ⟨?_, fun i hi => ⟨fun hlt => ?_, fun passed hp hlt => ?_⟩⟩
    · rw [hcursor, Cursor.forward_forward, marked, Nat.mul_add]
    · rw [(hrows i hi).1 (by omega), hother i hi (by omega)]
    · cases passed with
      | zero =>
        obtain rfl : i = number := hp
        rw [(hrows i hi).1 (by omega), hthis hi]
        rfl
      | succ passed =>
        rw [(hrows i hi).2 passed (by omega) (by omega), hother i hi (by omega), marked]
        simp only [Cursor.forward, Nat.mul_add, Nat.add_assoc]

/-- The number of bytes before the row counts. -/
def fixedSize : Nat := 24

variable (stream : TableStream) (data : ByteArray)

/-- The place of a table in the stream. -/
def extent (table : TableId) : TableExtent :=
  extentIn stream.extents table

/-- Four more bytes are announced by the heap sizes. -/
def hasExtraData : Bool :=
  (LittleEndian.valueAt data 6 1).testBit extraDataBit

/-- The position behind the row counts and the four bytes that may follow them. -/
def rowsStart : Nat :=
  fixedSize + 4 * marked stream.valid 0 tableBits + if hasExtraData data then 4 else 0

variable {stream data}

/-- What is read of a stream: its marks, the row counts behind them, and the places of the tables
    from there on. -/
theorem ofBytes_eq_ok (h : ofBytes data = .ok stream) :
    stream.valid = LittleEndian.valueAt data 8 8 ∧
    ∃ rows cursor,
      readCounts stream.valid (Vector.replicate _ 0) 0 tableBits { data, pos := fixedSize } =
        (.ok rows, cursor) ∧
      stream.layout = Layout.ofCounts rows (LittleEndian.valueAt data 6 1) ∧
      place stream.layout data.size (Vector.replicate _ {}) (stream.rowsStart data) TableId.all =
        .ok stream.extents := by
  have h : read { data } = (.ok stream, (read { data }).2) := Prod.ext h rfl
  obtain ⟨_, _, hread, h⟩ := bind_eq_ok h
  obtain ⟨-, -, rfl⟩ := Cursor.number_eq_ok hread
  obtain ⟨major, _, hread, h⟩ := bind_eq_ok h
  obtain ⟨-, -, rfl⟩ := Cursor.number_eq_ok hread
  obtain ⟨minor, _, hread, h⟩ := bind_eq_ok h
  obtain ⟨-, -, rfl⟩ := Cursor.number_eq_ok hread
  obtain ⟨heapFlags, _, hread, h⟩ := bind_eq_ok h
  obtain ⟨-, rfl, rfl⟩ := Cursor.number_eq_ok hread
  obtain ⟨_, _, hread, h⟩ := bind_eq_ok h
  obtain ⟨-, -, rfl⟩ := Cursor.number_eq_ok hread
  obtain ⟨valid, _, hread, h⟩ := bind_eq_ok h
  obtain ⟨-, hvalid, rfl⟩ := Cursor.number_eq_ok hread
  obtain ⟨sorted, _, hread, h⟩ := bind_eq_ok h
  obtain ⟨-, -, rfl⟩ := Cursor.number_eq_ok hread
  split at h
  · exact absurd (congrArg Prod.fst h) (by simp)
  obtain ⟨rows, _, hcounts, h⟩ := bind_eq_ok h
  obtain ⟨rfl, -⟩ := readCounts_eq_ok hcounts
  -- Both branches end in the same steps, at places that are four bytes apart.
  have hlast : ∀ cursor : Cursor, cursor.data = data →
      (do
        let cursor ← get
        let extents ← Attempt.ofExcept (place (Layout.ofCounts rows (LittleEndian.valueAt data 6 1))
          cursor.data.size (Vector.replicate _ {}) cursor.pos TableId.all)
        pure { majorVersion := major, minorVersion := minor, valid, sorted,
               layout := Layout.ofCounts rows (LittleEndian.valueAt data 6 1), extents } :
          Attempt Cursor TableStream) cursor = (.ok stream, (read { data }).2) →
      stream.valid = valid ∧ stream.layout = Layout.ofCounts rows (LittleEndian.valueAt data 6 1) ∧
        place stream.layout data.size (Vector.replicate _ {}) cursor.pos TableId.all =
          .ok stream.extents := by
    rintro cursor rfl h
    obtain ⟨_, _, hget, h⟩ := bind_eq_ok h
    obtain ⟨hc, rfl⟩ := Prod.mk.inj hget
    obtain rfl := Except.ok.inj hc
    obtain ⟨extents, _, hplace, h⟩ := bind_eq_ok h
    obtain ⟨hplace, -⟩ := Prod.mk.inj hplace
    obtain rfl := Except.ok.inj (Prod.mk.inj h).1
    exact ⟨rfl, rfl, hplace⟩
  split at h
  · have hextra : hasExtraData data = true := ‹_›
    obtain ⟨_, _, hadvance, h⟩ := bind_eq_ok h
    obtain ⟨-, rfl⟩ := Cursor.advance_eq_ok hadvance
    obtain ⟨rfl, hlayout, hplace⟩ := hlast _ rfl h
    refine ⟨hvalid, rows, _, hcounts, hlayout, ?_⟩
    rw [rowsStart, if_pos hextra]
    exact hplace
  · have hextra : ¬ hasExtraData data = true := ‹_›
    obtain ⟨rfl, hlayout, hplace⟩ := hlast _ rfl h
    refine ⟨hvalid, rows, _, hcounts, hlayout, ?_⟩
    rw [rowsStart, if_neg hextra, Nat.add_zero]
    exact hplace

/-- The row counts are those that the header declares, and the tables lie one behind the other,
    in the order of their numbers, inside the stream. -/
structure Tiled (stream : TableStream) (data : ByteArray) : Prop where
  marks : stream.valid = LittleEndian.valueAt data 8 8
  /-- The row counts follow one another, one for each table that is marked. -/
  declared : ∀ table, stream.rowCount table =
    if stream.valid.testBit table.number then
      LittleEndian.valueAt data (fixedSize + 4 * marked stream.valid 0 table.number) 4
    else 0
  /-- A table starts where those with smaller numbers end. -/
  offset : ∀ table, stream.rowCount table ≠ 0 →
    (stream.extent table).offset = stream.rowsStart data + stream.layout.spanOf table.before
  size : ∀ table,
    (stream.extent table).size = stream.rowCount table * stream.layout.rowSize table
  inside : ∀ table, (stream.extent table).offset + (stream.extent table).size ≤ data.size

/-- **In a stream whose header is read, the tables lie one behind the other.** -/
theorem tiled_of_ofBytes (h : ofBytes data = .ok stream) : stream.Tiled data := by
  obtain ⟨hmarks, rows, cursor, hcounts, hlayout, hplace⟩ := ofBytes_eq_ok h
  have hextent : ∀ table, if stream.rowCount table = 0 then stream.extent table = {} else
      stream.extent table = { offset := stream.rowsStart data + stream.layout.spanOf table.before
                              size := stream.layout.tableBytes table } ∧
        stream.rowsStart data + stream.layout.spanOf table.before +
          stream.layout.tableBytes table ≤ data.size := fun table => place_all hplace
  refine ⟨hmarks, fun table => ?_, fun table hrows => ?_, fun table => ?_, fun table => ?_⟩
  · have hrow := ((readCounts_eq_ok hcounts).2 table.number table.number_lt).2 table.number
      (Nat.zero_add _).symm (Nat.lt_trans table.number_lt (by decide))
    rw [Vector.getElem_replicate] at hrow
    rw [rowCount, hlayout]
    exact hrow
  · have ht := hextent table
    rw [if_neg hrows] at ht
    rw [ht.1]
  · have ht := hextent table
    split at ht
    · rename_i hrows
      rw [ht, hrows, Nat.zero_mul]
    · rw [ht.1]
      rfl
  · have ht := hextent table
    split at ht
    · rw [ht]
      exact Nat.zero_le _
    · rw [ht.1]
      exact ht.2

namespace Tiled

variable (h : stream.Tiled data)

include h in
/-- A table ends before the next one starts. -/
theorem stop_le_offset {a b : TableId} (hab : a.number < b.number) (ha : stream.rowCount a ≠ 0)
    (hb : stream.rowCount b ≠ 0) :
    (stream.extent a).offset + (stream.extent a).size ≤ (stream.extent b).offset := by
  obtain ⟨between, hbefore⟩ := TableId.before_eq_of_lt hab
  rw [h.offset a ha, h.size a, h.offset b hb, hbefore, Layout.spanOf_append, Layout.spanOf,
    Layout.tableBytes]
  simp only [rowCount]
  omega

include h in
theorem rowCount_ne_zero {table : TableId} {pos : Nat} (ht : (stream.extent table).Holds pos) :
    stream.rowCount table ≠ 0 := by
  intro hr
  have hs := h.size table
  rw [hr, Nat.zero_mul] at hs
  obtain ⟨hpos, hlt⟩ := ht
  omega

include h in
/-- No byte belongs to two tables. -/
theorem disjoint {a b : TableId} (hab : a ≠ b) (pos : Nat) (ha : (stream.extent a).Holds pos) :
    ¬ (stream.extent b).Holds pos := by
  intro hb
  have hra := h.rowCount_ne_zero ha
  have hrb := h.rowCount_ne_zero hb
  obtain ⟨hla, hua⟩ := ha
  obtain ⟨hlb, hub⟩ := hb
  rcases Nat.lt_trichotomy a.number b.number with hn | hn | hn
  · have hstop := h.stop_le_offset hn hra hrb
    omega
  · exact hab (TableId.number_inj.1 hn)
  · have hstop := h.stop_le_offset hn hrb hra
    omega

include h in
/-- The rows of a table are the bytes of its place. -/
theorem bytesOf_eq (table : TableId) :
    stream.bytesOf data table = data.extract (stream.extent table).offset
      ((stream.extent table).offset + (stream.extent table).size) := by
  rw [bytesOf]
  exact if_pos (h.inside table)

include h in
theorem size_bytesOf (table : TableId) :
    (stream.bytesOf data table).size = stream.rowCount table * stream.layout.rowSize table := by
  have hinside := h.inside table
  rw [h.bytesOf_eq, ← h.size, ByteArray.size_extract]
  omega

include h in
/-- The bytes of a table hold all its rows. -/
theorem ofBytes_bytesOf (α : Type) [MetadataRow α] :
    Table.ofBytes (stream.bytesOf data (MetadataRow.table α))
        (stream.rowCount (MetadataRow.table α)) stream.layout =
      .ok ({ data := stream.bytesOf data (MetadataRow.table α),
             count := stream.rowCount (MetadataRow.table α), layout := stream.layout } :
               Table α) :=
  if_pos (Nat.le_of_eq (h.size_bytesOf _).symm)

include h in
/-- A table has the rows of its place and the row count of the header. -/
theorem table_eq (α : Type) [MetadataRow α] :
    (stream.table data : Table α) =
      { data := stream.bytesOf data (MetadataRow.table α),
        count := stream.rowCount (MetadataRow.table α), layout := stream.layout } := by
  rw [table, tableOf, h.ofBytes_bytesOf]

end Tiled

end TableStream

end ApiCensus
