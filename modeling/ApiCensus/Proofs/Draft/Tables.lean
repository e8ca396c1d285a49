/-
  The table stream that is written is the one that is read.

  * `ReadsAs`: the values of the columns of a row, and the cells that they are read as.
  * `TableRows.Fits`: every number that is written fits its bytes.
  * `TableRows.ofBytes_stream`: the header reads as the row counts and the widths it was
    written with.
  * `TableRows.get_stream`: every row reads as its values.
-/
import ApiCensus.Draft.Tables
import ApiCensus.Proofs.Metadata.CodedIndex
import ApiCensus.Proofs.Metadata.Columns
import ApiCensus.Proofs.Metadata.Extents

namespace ApiCensus

open Attempt

/-! ## Rows -/

/-- The values of columns, and the cells that they are read as: a coded index as the table and
    the row of the token that it was made of, and everything else as it is. -/
inductive ReadsAs : List Column → List Nat → List Cell → Prop
  | nil : ReadsAs [] [] []
  | number {column : Column} {columns : List Column} {value : Nat} {row : List Nat}
      {cells : List Cell} (plain : ∀ kind, column ≠ .coded kind)
      (rest : ReadsAs columns row cells) :
      ReadsAs (column :: columns) (value :: row) (.number value :: cells)
  | coded {columns : List Column} {row : List Nat} {cells : List Cell} (kind : CodedKind)
      (token : Token) (rest : ReadsAs columns row cells) :
      ReadsAs (.coded kind :: columns) (CodedIndex.encode kind token :: row)
        (.index (.ofToken kind token) :: cells)

/-- Every value fits its column. -/
def Layout.Fits (layout : Layout) (columns : List Column) (row : List Nat) : Prop :=
  ∀ cell ∈ columns.zip row, cell.2 < LittleEndian.bound (layout.columnBytes cell.1)

theorem Layout.Fits.of_cons {layout : Layout} {column : Column} {columns : List Column}
    {value : Nat} {row : List Nat} (h : layout.Fits (column :: columns) (value :: row)) :
    value < LittleEndian.bound (layout.columnBytes column) ∧ layout.Fits columns row :=
  ⟨h (column, value) List.mem_cons_self, fun cell hc => h cell (List.mem_cons_of_mem _ hc)⟩

theorem Layout.le_bound_columnBytes (layout : Layout) (column : Column) :
    0x10000 ≤ LittleEndian.bound (layout.columnBytes column) := by
  have hwidth : ∀ isWide, 0x10000 ≤ LittleEndian.bound (width isWide) := by decide
  cases column with
  | short => exact Nat.le_refl _
  | long => exact hwidth true
  | _ => exact hwidth _

/-- A width is large enough for all numbers up to the one that it was chosen for. -/
theorem Layout.lt_bound_width {value most : Nat} (hle : value ≤ most)
    (hlt : value < LittleEndian.bound 4) :
    value < LittleEndian.bound (width (0xFFFF < most)) := by
  by_cases hlarge : 0xFFFF < most
  · rw [decide_eq_true hlarge]
    exact hlt
  · rw [decide_eq_false hlarge]
    exact Nat.lt_succ_of_le (Nat.le_trans hle (Nat.le_of_not_lt hlarge))

theorem Layout.cellAt_of_plain {layout : Layout} {data : ByteArray} {pos : Nat} {column : Column}
    (plain : ∀ kind, column ≠ .coded kind) : layout.cellAt data pos column =
      .ok (.number (LittleEndian.valueAt data pos (layout.columnBytes column))) := by
  cases column with
  | coded kind => exact absurd rfl (plain _)
  | _ => rfl

theorem Column.row_ne_coded (table : TableId) (kind : CodedKind) :
    Column.row table ≠ .coded kind := by
  rintro ⟨⟩

namespace ReadsAs

variable {layout : Layout} {columns : List Column} {row : List Nat} {cells : List Cell}

/-- The values alone tell the cells, whichever token a coded index was made of. -/
theorem unique {others : List Cell} (h : ReadsAs columns row cells)
    (ho : ReadsAs columns row others) : cells = others := by
  induction h generalizing others with
  | nil =>
    cases ho
    rfl
  | number plain _ ih =>
    cases ho with
    | number _ rest => rw [ih rest]
    | coded => exact absurd rfl (plain _)
  | @coded columns row cells kind token _ ih =>
    generalize hvalue : CodedIndex.encode kind token = value at ho
    cases ho with
    | number plain _ => exact absurd rfl (plain _)
    | coded _ other rest =>
      have hdecode := CodedIndex.decode_encode kind token
      rw [hvalue, CodedIndex.decode_encode] at hdecode
      rw [ih rest, Except.ok.inj hdecode]

@[simp] theorem exists_nil : ∃ cells, ReadsAs [] [] cells :=
  ⟨[], .nil⟩

@[simp] theorem exists_number {column : Column} {value : Nat}
    (plain : ∀ kind, column ≠ .coded kind) :
    (∃ cells, ReadsAs (column :: columns) (value :: row) cells) ↔
      ∃ cells, ReadsAs columns row cells := by
  constructor
  · rintro ⟨_, h⟩
    cases h with
    | number _ rest => exact ⟨_, rest⟩
    | coded => exact absurd rfl (plain _)
  · rintro ⟨_, rest⟩
    exact ⟨_, .number plain rest⟩

@[simp] theorem exists_coded (kind : CodedKind) (token : Token) :
    (∃ cells, ReadsAs (.coded kind :: columns) (CodedIndex.encode kind token :: row) cells) ↔
      ∃ cells, ReadsAs columns row cells := by
  constructor
  · rintro ⟨_, h⟩
    generalize CodedIndex.encode kind token = value at h
    cases h with
    | number plain _ => exact absurd rfl (plain _)
    | coded _ _ rest => exact ⟨_, rest⟩
  · rintro ⟨_, rest⟩
    exact ⟨_, .coded kind token rest⟩

/-- The bytes of the values of columns. -/
def bytes (layout : Layout) (columns : List Column) (row : List Nat) : List UInt8 :=
  LittleEndian.encodeAll ((columns.map layout.columnBytes).zip row)

theorem bytes_cons (column : Column) (value : Nat) :
    bytes layout (column :: columns) (value :: row) =
      LittleEndian.encode (layout.columnBytes column) value ++ bytes layout columns row := rfl

theorem length_bytes (h : ReadsAs columns row cells) :
    (bytes layout columns row).length = layout.size columns := by
  induction h with
  | nil => rfl
  | number _ _ ih => rw [bytes_cons, List.length_append, LittleEndian.length_encode, ih]; rfl
  | coded _ _ _ ih => rw [bytes_cons, List.length_append, LittleEndian.length_encode, ih]; rfl

/-- Every cell is read where its value was written. -/
theorem cellsAt_bytes (h : ReadsAs columns row cells) (hfits : layout.Fits columns row)
    {cursor : Cursor} {back : List UInt8} (hs : cursor.Sees (bytes layout columns row ++ back)) :
    layout.cellsAt cursor.data cursor.pos columns = .ok cells := by
  induction h generalizing cursor with
  | nil => rfl
  | @number column columns value row cells plain rest ih =>
    rw [bytes_cons, List.append_assoc] at hs
    obtain ⟨hfirst, hrest⟩ := hfits.of_cons
    obtain ⟨hvalue, hback⟩ := hs.number hfirst
    have hrest := ih hrest hback
    simp only [Cursor.forward] at hrest
    rw [Layout.cellsAt, Layout.cellAt_of_plain plain, hvalue, hrest]
    rfl
  | @coded columns row cells kind token rest ih =>
    rw [bytes_cons, List.append_assoc] at hs
    obtain ⟨hfirst, hrest⟩ := hfits.of_cons
    obtain ⟨hvalue, hback⟩ := hs.number hfirst
    have hrest := ih hrest hback
    simp only [Cursor.forward] at hrest
    rw [Layout.cellsAt, Layout.cellAt, hvalue, CodedIndex.decode_encode, hrest]
    rfl

end ReadsAs

namespace TableRows

variable {rows : TableRows} {flags : Nat}

/-- Every number of the rows fits the bytes it is written in, and so do the row counts. -/
structure Fits (rows : TableRows) (flags : Nat) : Prop where
  counts : ∀ table, (rows table).length < LittleEndian.bound 4
  values : ∀ table, ∀ row ∈ rows table, (rows.layout flags).Fits table.columns row

/-- Every row is one of the cells of its table. -/
def Readable (rows : TableRows) : Prop :=
  ∀ table, ∀ row ∈ rows table, ∃ cells, ReadsAs table.columns row cells

/-- Small numbers fit whatever the widths are. -/
theorem fits_of_lt (hcounts : ∀ table, (rows table).length < LittleEndian.bound 4)
    (hvalues : ∀ table, ∀ row ∈ rows table, ∀ value ∈ row, value < 0x10000) :
    rows.Fits flags := by
  refine ⟨hcounts, fun table row hrow cell hcell => ?_⟩
  have hvalue := hvalues table row hrow cell.2 (List.of_mem_zip hcell).2
  exact Nat.lt_of_lt_of_le hvalue (Layout.le_bound_columnBytes _ cell.1)

theorem getElem_counts (table : TableId) (h : table.number < TableId.count) :
    rows.counts[table.number] = (rows table).length := by
  rw [counts, Vector.getElem_ofFn, TableId.ofNat_number]

theorem rowCount_layout (table : TableId) :
    (rows.layout flags).rowCount table = (rows table).length :=
  getElem_counts table table.number_lt

/-! ## Marks and row counts -/

theorem testBit_foldl_mark (tables : List TableId) (bits number : Nat) :
    (tables.foldl (fun bits table => bits ||| (1 <<< table.number)) bits).testBit number =
      (bits.testBit number || tables.any (·.number == number)) := by
  induction tables generalizing bits with
  | nil => simp
  | cons table tables ih =>
    have hmark : (1 <<< table.number).testBit number = (table.number == number) := by
      rw [Nat.one_shiftLeft, Nat.testBit_two_pow]
      rfl
    rw [List.foldl_cons, ih, Nat.testBit_or, hmark, List.any_cons, Bool.or_assoc]

/-- The tables with rows are marked. -/
theorem testBit_valid (table : TableId) :
    rows.valid.testBit table.number = !(rows table).isEmpty := by
  rw [valid, testBit_foldl_mark, Nat.zero_testBit, Bool.false_or, Bool.eq_iff_iff,
    List.any_eq_true]
  constructor
  · rintro ⟨other, hmem, hnumber⟩
    obtain rfl : other = table := TableId.number_inj.1 (eq_of_beq hnumber)
    exact (List.mem_filter.1 hmem).2
  · intro hrows
    exact ⟨table, List.mem_filter.2 ⟨table.mem_all, hrows⟩, beq_self_eq_true _⟩

theorem testBit_valid_of_le {number : Nat} (h : TableId.count ≤ number) :
    rows.valid.testBit number = false := by
  rw [valid, testBit_foldl_mark, Nat.zero_testBit, Bool.false_or, List.any_eq_false]
  intro table _
  have hlt := table.number_lt
  simp only [beq_iff_eq]
  omega

theorem valid_lt : rows.valid < LittleEndian.bound 8 := by
  show rows.valid < 2 ^ 64
  refine Nat.lt_pow_two_of_testBit _ fun number hle => testBit_valid_of_le ?_
  exact Nat.le_trans (by decide) hle

/-- The row counts of those of some tables that have rows. -/
def countBytes (rows : TableRows) (tables : List TableId) : List UInt8 :=
  LittleEndian.encodeAll
    ((tables.filter fun table => !(rows table).isEmpty).map fun table => (4, (rows table).length))

theorem countBytes_cons (table : TableId) (tables : List TableId) :
    rows.countBytes (table :: tables) =
      (if rows.valid.testBit table.number then LittleEndian.encode 4 (rows table).length else [])
        ++ rows.countBytes tables := by
  rw [countBytes, List.filter_cons, testBit_valid]
  split <;> rfl

/-- The tables with numbers below `number` have their row counts, and the others none yet. -/
def CountedTo (rows : TableRows) (counts : Vector Nat TableId.count) (number : Nat) : Prop :=
  ∀ i (h : i < TableId.count), counts[i] = if i < number then rows.counts[i] else 0

theorem countedTo_zero (rows : TableRows) : rows.CountedTo (.replicate _ 0) 0 :=
  fun _ _ => Vector.getElem_replicate _

namespace CountedTo

variable {counts : Vector Nat TableId.count} {number : Nat}

theorem eq_counts (h : rows.CountedTo counts number) (hn : TableId.count ≤ number) :
    counts = rows.counts :=
  Vector.ext fun i hi => by rw [h i hi, if_pos (Nat.lt_of_lt_of_le hi hn)]

theorem set (h : rows.CountedTo counts number) (hn : number < TableId.count) :
    rows.CountedTo (counts.set number rows.counts[number] hn) (number + 1) := by
  intro i hi
  rw [Vector.getElem_set]
  rcases Nat.lt_trichotomy i number with hlt | rfl | hgt
  · rw [if_neg (by omega), h i hi, if_pos hlt, if_pos (by omega)]
  · rw [if_pos rfl, if_pos (by omega)]
  · rw [if_neg (by omega), h i hi, if_neg (by omega), if_neg (by omega)]

theorem skip (h : rows.CountedTo counts number)
    (hzero : ∀ hn : number < TableId.count, rows.counts[number] = 0) :
    rows.CountedTo counts (number + 1) := by
  intro i hi
  rw [h i hi]
  rcases Nat.lt_trichotomy i number with hlt | rfl | hgt
  · rw [if_pos hlt, if_pos (by omega)]
  · rw [if_neg (by omega), if_pos (by omega), hzero hi]
  · rw [if_neg (by omega), if_neg (by omega)]

end CountedTo

/-- From any table on, the row counts are read as they were written. -/
theorem reads_readCounts (hfits : rows.Fits flags) {number left : Nat}
    {counts : Vector Nat TableId.count} (hleft : TableId.count ≤ number + left)
    (hdone : rows.CountedTo counts number) :
    Cursor.Reads (TableStream.readCounts rows.valid counts number left)
      (rows.countBytes (TableId.all.drop number)) rows.counts := by
  induction left generalizing number counts with
  | zero =>
    rw [List.drop_of_length_le hleft, ← hdone.eq_counts hleft]
    exact Cursor.reads_pure _
  | succ left ih =>
    rw [TableStream.readCounts]
    by_cases hnumber : number < TableId.count
    · obtain ⟨table, rfl⟩ := TableId.exists_number hnumber
      have hcount := rows.getElem_counts table hnumber
      rw [TableId.drop_number, countBytes_cons]
      split
      · have hset := hdone.set hnumber
        rw [hcount] at hset
        exact (Cursor.reads_number (hfits.counts table)).bind (ih (by omega) hset)
      · rename_i hbit
        rw [testBit_valid] at hbit
        refine ih (by omega) (hdone.skip fun _ => ?_)
        rw [hcount, List.length_eq_zero_iff]
        simpa using hbit
    · have hend := Nat.le_of_not_lt hnumber
      have hrest := ih (by omega) (hdone.skip fun hn => absurd hn hnumber)
      rw [List.drop_of_length_le (Nat.le_succ_of_le hend)] at hrest
      rw [testBit_valid_of_le hend, if_neg (by simp), List.drop_of_length_le hend]
      exact hrest

/-! ## The header -/

theorem header_eq :
    rows.header flags = LittleEndian.encode 4 0 ++ (LittleEndian.encode 1 2 ++
      (LittleEndian.encode 1 0 ++ (LittleEndian.encode 1 flags ++ (LittleEndian.encode 1 1 ++
        (LittleEndian.encode 8 rows.valid ++ (LittleEndian.encode 8 sortedTables ++
          rows.countBytes TableId.all)))))) := rfl

/-- The header is read as it was written. -/
theorem ofBytes_header (hfits : rows.Fits flags) (hflags : flags < 64)
    (hmodule : rows .module ≠ []) {back : List UInt8} {data : ByteArray}
    (hdata : data = (rows.header flags ++ back).toByteArray)
    {placed : Vector TableExtent TableId.count}
    (hplace : TableStream.place (rows.layout flags) data.size (.replicate _ {})
      (rows.header flags).length TableId.all = .ok placed) :
    TableStream.ofBytes data =
      .ok { majorVersion := 2, minorVersion := 0, valid := rows.valid, sorted := sortedTables,
            layout := rows.layout flags, extents := placed } := by
  have hs : Cursor.Sees { data } (rows.header flags ++ back) := hdata ▸ Cursor.sees_start _
  have hvalid : rows.valid ≠ 0 := by
    intro hzero
    have hbit := rows.testBit_valid .module
    rw [hzero, Nat.zero_testBit] at hbit
    exact hmodule (by simpa using hbit.symm)
  rw [header_eq] at hs
  simp only [List.append_assoc] at hs
  obtain ⟨hreserved, hs⟩ := hs.number_bind (by decide)
  obtain ⟨hmajor, hs⟩ := hs.number_bind (by decide)
  obtain ⟨hminor, hs⟩ := hs.number_bind (by decide)
  obtain ⟨hheaps, hs⟩ := hs.number_bind (Nat.lt_trans hflags (by decide))
  obtain ⟨hreserved', hs⟩ := hs.number_bind (by decide)
  obtain ⟨hmarks, hs⟩ := hs.number_bind valid_lt
  obtain ⟨hsorted, hs⟩ := hs.number_bind (by decide)
  have hcounts := reads_readCounts hfits (by decide : _ ≤ 0 + TableStream.tableBits)
    rows.countedTo_zero _ _ hs
  have hextra : flags.testBit TableStream.extraDataBit = false := Nat.testBit_lt_two_pow hflags
  have hlength : (rows.header flags).length = 24 + (rows.countBytes TableId.all).length := by
    simp only [header_eq, List.length_append, LittleEndian.length_encode]
    omega
  rw [hlength] at hplace
  rw [TableStream.ofBytes, Attempt.result, TableStream.read, hreserved, hmajor, hminor, hheaps,
    hreserved', hmarks, hsorted, if_neg hvalid, bind_apply_ok hcounts, if_neg (by simp [hextra])]
  simp only [Cursor.forward_forward]
  have hstep : ∀ cursor : Cursor, cursor.data = data →
      cursor.pos = 24 + (rows.countBytes TableId.all).length →
      (Attempt.ofExcept (TableStream.place (Layout.ofCounts rows.counts flags) cursor.data.size
        (.replicate _ {}) cursor.pos TableId.all) : Attempt Cursor _) cursor =
          (.ok placed, cursor) := by
    intro cursor hc hpos
    rw [hc, hpos, ← layout, hplace]
    rfl
  rw [bind_apply_ok (get_apply _), bind_apply_ok (hstep _ rfl (Nat.zero_add _))]
  rfl

/-! ## The rows -/

/-- The bytes of the rows of a table. -/
def tableBytes (rows : TableRows) (layout : Layout) (table : TableId) : List UInt8 :=
  (rows table).flatMap (encodeRow layout table)

theorem body_eq (layout : Layout) :
    rows.body layout = TableId.all.flatMap (rows.tableBytes layout) := by
  have hfilter : ∀ tables : List TableId,
      (tables.filter fun table => !(rows table).isEmpty).flatMap (rows.tableBytes layout) =
        tables.flatMap (rows.tableBytes layout) := by
    intro tables
    induction tables with
    | nil => rfl
    | cons table tables ih =>
      rw [List.filter_cons, List.flatMap_cons]
      split
      · rw [List.flatMap_cons, ih]
      · rename_i hempty
        have hnone : rows table = [] := by simpa using hempty
        rw [ih, tableBytes, hnone]
        rfl
  exact hfilter _

theorem length_encodeRow (hread : rows.Readable) {table : TableId} {row : List Nat}
    (hrow : row ∈ rows table) (layout : Layout) :
    (encodeRow layout table row).length = layout.rowSize table := by
  obtain ⟨cells, hcells⟩ := hread table row hrow
  exact hcells.length_bytes

theorem length_encodeRows (hread : rows.Readable) {table : TableId} {some : List (List Nat)}
    (hsome : ∀ row ∈ some, row ∈ rows table) (layout : Layout) :
    (some.flatMap (encodeRow layout table)).length = some.length * layout.rowSize table := by
  induction some with
  | nil => simp
  | cons row rest ih =>
    have hrest := ih fun other ho => hsome other (List.mem_cons_of_mem _ ho)
    rw [List.flatMap_cons, List.length_append, hrest,
      length_encodeRow hread (hsome row List.mem_cons_self), List.length_cons, Nat.succ_mul,
      Nat.add_comm]

theorem length_tableBytes (hread : rows.Readable) (table : TableId) :
    (rows.tableBytes (rows.layout flags) table).length =
      (rows.layout flags).tableBytes table := by
  rw [tableBytes, length_encodeRows hread (fun _ => id), Layout.tableBytes, rowCount_layout]

theorem length_flatMap_tableBytes (hread : rows.Readable) (tables : List TableId) :
    (tables.flatMap (rows.tableBytes (rows.layout flags))).length =
      (rows.layout flags).spanOf tables := by
  induction tables with
  | nil => rfl
  | cons table tables ih =>
    rw [List.flatMap_cons, List.length_append, length_tableBytes hread, ih, Layout.spanOf]

/-- The stream, with the rows of all tables one behind the other. -/
theorem stream_eq (rows : TableRows) (flags : Nat) : ∃ zeros, rows.stream flags =
    rows.header flags ++ (TableId.all.flatMap (rows.tableBytes (rows.layout flags)) ++ zeros) :=
  ⟨_, by rw [stream, Alignment.padded, body_eq, List.append_assoc]⟩

/-- Where the rows of a table stand in the stream. -/
theorem stream_eq_table (flags : Nat) (hread : rows.Readable) (table : TableId) :
    ∃ front back, rows.stream flags =
        front ++ (rows.tableBytes (rows.layout flags) table ++ back) ∧
      front.length = (rows.header flags).length + (rows.layout flags).spanOf table.before := by
  obtain ⟨zeros, hbytes⟩ := rows.stream_eq flags
  refine ⟨rows.header flags ++ table.before.flatMap (rows.tableBytes (rows.layout flags)),
    (TableId.all.drop (table.number + 1)).flatMap (rows.tableBytes (rows.layout flags)) ++ zeros,
    ?_, ?_⟩
  · rw [hbytes, table.all_eq_before, List.flatMap_append, List.flatMap_cons]
    simp only [List.append_assoc, ← table.all_eq_before]
  · rw [List.length_append, length_flatMap_tableBytes hread]

/-- **The header reads as it was written, and every table lies where its rows were written.** -/
theorem ofBytes_stream (hfits : rows.Fits flags) (hread : rows.Readable) (hflags : flags < 64)
    (hmodule : rows .module ≠ []) :
    ∃ stream, TableStream.ofBytes (rows.stream flags).toByteArray = .ok stream ∧
      stream.layout = rows.layout flags ∧
      ∀ table, rows table ≠ [] →
        stream.bytesOf (rows.stream flags).toByteArray table =
          (rows.tableBytes (rows.layout flags) table).toByteArray := by
  obtain ⟨zeros, hbytes⟩ := rows.stream_eq flags
  have hsize : (rows.header flags).length + (rows.layout flags).spanOf TableId.all ≤
      (rows.stream flags).toByteArray.size := by
    rw [hbytes, List.size_toByteArray, List.length_append, List.length_append,
      length_flatMap_tableBytes hread]
    omega
  obtain ⟨placed, hplace⟩ : ∃ placed, TableStream.place (rows.layout flags) _
      (.replicate _ {}) (rows.header flags).length TableId.all = .ok placed :=
    TableStream.place_ok hsize
  have hok := ofBytes_header hfits hflags hmodule (congrArg List.toByteArray hbytes) hplace
  refine ⟨_, hok, rfl, fun table htable => ?_⟩
  have hcount : (rows.layout flags).rowCount table ≠ 0 := by
    rw [rowCount_layout]
    exact fun hzero => htable (List.length_eq_zero_iff.1 hzero)
  have hextent := TableStream.extentIn_of_place hplace hcount
  obtain ⟨front, back, hdata, hfront⟩ := stream_eq_table flags hread table
  have hs := Cursor.sees_behind front (rows.tableBytes (rows.layout flags) table ++ back)
  rw [← hdata, hfront] at hs
  have hextract := hs.extract
  rw [length_tableBytes hread] at hextract
  rw [(TableStream.tiled_of_ofBytes hok).bytesOf_eq, TableStream.extent, hextent, hextract]

/-- Where a row stands among the rows of its table. -/
theorem tableBytes_eq (hread : rows.Readable) {table : TableId} {index : Nat} {row : List Nat}
    (hrow : (rows table)[index]? = some row) (layout : Layout) :
    ∃ front back, rows.tableBytes layout table = front ++ (encodeRow layout table row ++ back) ∧
      front.length = index * layout.rowSize table := by
  obtain ⟨hindex, rfl⟩ := List.getElem?_eq_some_iff.1 hrow
  refine ⟨((rows table).take index).flatMap (encodeRow layout table),
    ((rows table).drop (index + 1)).flatMap (encodeRow layout table), ?_, ?_⟩
  · rw [← List.flatMap_cons, ← List.flatMap_append, List.getElem_cons_drop,
      List.take_append_drop, tableBytes]
  · rw [length_encodeRows hread fun _ h => List.mem_of_mem_take h, List.length_take,
      Nat.min_eq_left (Nat.le_of_lt hindex)]

/-- A row is read where it was written. -/
theorem get_tableBytes (hfits : rows.Fits flags) (hread : rows.Readable) {kind : RowKind}
    {index : Nat} {row : List Nat} (hrow : (rows kind.table)[index]? = some row) :
    ∃ record,
      (kind.tableOf (rows.layout flags) (rows.tableBytes (rows.layout flags) kind.table).toByteArray
        (rows kind.table).length).get (index + 1) = .ok record ∧
        kind.rid record = index + 1 ∧ ReadsAs kind.table.columns row (kind.cells record) := by
  obtain ⟨hindex, -⟩ := List.getElem?_eq_some_iff.1 hrow
  have hmem := List.mem_of_getElem? hrow
  obtain ⟨cells, hcells⟩ := hread kind.table row hmem
  obtain ⟨front, back, hbytes, hfront⟩ := tableBytes_eq hread hrow (rows.layout flags)
  have hs := Cursor.sees_behind front (encodeRow (rows.layout flags) kind.table row ++ back)
  rw [← hbytes, hfront] at hs
  have hstop := hs.length_add
  rw [length_encodeRow hread hmem] at hstop
  have hcellsAt := hcells.cellsAt_bytes (hfits.values _ row hmem) hs
  have hresult := (RowKind.read_start (Nat.le.intro hstop)).1.trans
    (congrArg (Except.map (index + 1, ·)) hcellsAt)
  rw [RowKind.get_eq_read (Nat.succ_pos index) hindex]
  generalize (MetadataRow.read _ _ : Attempt Cursor kind.Row) _ = run at hresult ⊢
  obtain ⟨fault | record, cursor⟩ := run
  · exact absurd hresult (by simp [Except.map])
  · obtain ⟨hrid, hsame⟩ := Prod.mk.inj (Except.ok.inj hresult)
    exact ⟨record, rfl, hrid, hsame ▸ hcells⟩

/-- **Every row reads as its values.** -/
theorem get_stream (hfits : rows.Fits flags) (hread : rows.Readable) (hflags : flags < 64)
    (hmodule : rows .module ≠ []) :
    ∃ stream, TableStream.ofBytes (rows.stream flags).toByteArray = .ok stream ∧
      (∀ table, stream.rowCount table = (rows table).length) ∧
      ∀ (kind : RowKind) (index : Nat) (row : List Nat), (rows kind.table)[index]? = some row →
        ∃ record,
          (stream.table (rows.stream flags).toByteArray : Table kind.Row).get (index + 1) =
              .ok record ∧
            kind.rid record = index + 1 ∧
            ReadsAs kind.table.columns row (kind.cells record) := by
  obtain ⟨stream, hok, hlayout, hbytes⟩ := ofBytes_stream hfits hread hflags hmodule
  have hcount : ∀ table, stream.rowCount table = (rows table).length := fun table => by
    rw [TableStream.rowCount, hlayout, rowCount_layout]
  refine ⟨stream, hok, hcount, fun kind index row hrow => ?_⟩
  have hrows : rows kind.table ≠ [] := List.ne_nil_of_mem (List.mem_of_getElem? hrow)
  have htable : (stream.table (rows.stream flags).toByteArray : Table kind.Row) =
      kind.tableOf (rows.layout flags)
        (rows.tableBytes (rows.layout flags) kind.table).toByteArray (rows kind.table).length := by
    rw [(TableStream.tiled_of_ofBytes hok).table_eq, RowKind.tableOf, ← hcount, ← hlayout,
      hlayout, ← hbytes _ hrows]
    rfl
  rw [htable]
  exact get_tableBytes hfits hread hrow

end TableRows

end ApiCensus
