/-
  Rows that do not fit their columns.

  Of a number that is too large for its column only the low bytes are written.

  * `Layout.cut`: the values of a row as far as the columns hold them.
  * `TableRows.stream_cut`: rows and their cut form have the same stream.
  * `TableRows.fits_cut`, `TableRows.readable_cut`: the cut form fits and can be read, whatever
    the rows are.
-/
import ApiCensus.Proofs.Draft.Tables

namespace ApiCensus

/-! ## Numbers -/

theorem LittleEndian.encode_mod (width n : Nat) :
    encode width (n % bound width) = encode width n := by
  induction width generalizing n with
  | zero => rfl
  | succ width ih =>
    have hlow : UInt8.ofNat (n % bound (width + 1)) = UInt8.ofNat n := by
      apply UInt8.toNat_inj.1
      rw [UInt8.toNat_ofNat', UInt8.toNat_ofNat', bound]
      exact Nat.mod_mod_of_dvd n (Nat.dvd_mul_right 0x100 _)
    have hhigh : n % bound (width + 1) / 0x100 = n / 0x100 % bound width := by
      rw [bound, Nat.mod_mul_right_div_self]
    rw [encode, encode, hlow, hhigh, ih]

theorem LittleEndian.bound_pos (width : Nat) : 0 < bound width := by
  induction width with
  | zero => exact Nat.one_pos
  | succ width ih => exact Nat.mul_pos (by decide) ih

/-- The token with the same table and another row. -/
def Token.withRow (token : Token) (row : Nat) : Token :=
  ofNat (token.tableNumber * rowBound + row % rowBound)

theorem Token.toNat_withRow (token : Token) (row : Nat) :
    (token.withRow row).value.toNat = token.tableNumber * rowBound + row % rowBound := by
  have htable : token.tableNumber < 0x100 := by
    have hlt := token.value.toNat_lt
    rw [tableNumber, rowBound]
    omega
  have hrow : row % rowBound < rowBound := Nat.mod_lt _ (by decide)
  simp only [withRow, ofNat, rowBound, UInt32.toNat_ofNat'] at *
  omega

theorem Token.row_withRow (token : Token) {row : Nat} (h : row < rowBound) :
    (token.withRow row).row = row := by
  rw [Token.row, toNat_withRow, Nat.mul_add_mod_self_right, Nat.mod_mod, Nat.mod_eq_of_lt h]

theorem Token.tableNumber_withRow (token : Token) (row : Nat) :
    (token.withRow row).tableNumber = token.tableNumber := by
  have hrow : row % rowBound < rowBound := Nat.mod_lt _ (by decide)
  rw [tableNumber, toNat_withRow, Nat.mul_comm, Nat.mul_add_div (by decide),
    Nat.div_eq_of_lt hrow, Nat.add_zero]

theorem CodedIndex.tagOf_withRow (kind : CodedKind) (token : Token) (row : Nat) :
    tagOf kind (token.withRow row) = tagOf kind token := by
  have hin : (token.withRow row).isIn = token.isIn := by
    funext table
    rw [Token.isIn, Token.isIn, Token.tableNumber_withRow]
  unfold tagOf
  rw [hin]

/-- The low bits of what is written for a token are written for a token of the same table. -/
theorem CodedIndex.encode_mod (kind : CodedKind) (token : Token) {bits : Nat}
    (hbits : kind.tagBits ≤ bits) :
    encode kind token % (1 <<< bits) =
      encode kind (token.withRow (token.row % (1 <<< (bits - kind.tagBits)))) := by
  have htag := tagOf_lt kind token
  rw [Nat.one_shiftLeft] at htag ⊢
  rw [Nat.one_shiftLeft]
  have hrow : token.row % 2 ^ (bits - kind.tagBits) < Token.rowBound :=
    Nat.lt_of_le_of_lt (Nat.mod_le _ _) (Nat.mod_lt _ (by decide))
  have hsplit : 2 ^ bits = 2 ^ kind.tagBits * 2 ^ (bits - kind.tagBits) := by
    rw [← Nat.pow_add, Nat.add_sub_cancel' hbits]
  rw [encode, encode, tagOf_withRow, Token.row_withRow token hrow, Nat.shiftLeft_eq,
    Nat.shiftLeft_eq, hsplit, Nat.mod_mul, Nat.mul_add_mod_self_right, Nat.mod_eq_of_lt htag,
    Nat.mul_comm token.row, Nat.mul_add_div (Nat.two_pow_pos _), Nat.div_eq_of_lt htag,
    Nat.add_zero, Nat.add_comm, Nat.mul_comm (2 ^ kind.tagBits)]

/-! ## Rows -/

/-- The values of a row as far as the columns hold them. -/
def Layout.cut (layout : Layout) (columns : List Column) (row : List Nat) : List Nat :=
  columns.zipWith (fun column value => value % LittleEndian.bound (layout.columnBytes column)) row

namespace Layout

variable (layout : Layout) {columns : List Column} {row : List Nat} {cells : List Cell}

theorem cut_cons (column : Column) (columns : List Column) (value : Nat) (row : List Nat) :
    layout.cut (column :: columns) (value :: row) =
      value % LittleEndian.bound (layout.columnBytes column) :: layout.cut columns row := rfl

theorem fits_cut (columns : List Column) (row : List Nat) :
    layout.Fits columns (layout.cut columns row) := by
  induction columns generalizing row with
  | nil => simp [Fits]
  | cons column columns ih =>
    cases row with
    | nil => simp [Fits, cut]
    | cons value row =>
      intro cell hcell
      rw [cut_cons, List.zip_cons_cons] at hcell
      rcases List.mem_cons.1 hcell with rfl | hcell
      · exact Nat.mod_lt _ (LittleEndian.bound_pos _)
      · exact ih row cell hcell

/-- Values that fit are not changed. -/
theorem cut_of_fits (h : layout.Fits columns row) (hlength : row.length = columns.length) :
    layout.cut columns row = row := by
  induction columns generalizing row with
  | nil =>
    rw [List.length_eq_zero_iff.1 hlength]
    rfl
  | cons column columns ih =>
    cases row with
    | nil => cases hlength
    | cons value row =>
      obtain ⟨hfirst, hrest⟩ := h.of_cons
      rw [cut_cons, Nat.mod_eq_of_lt hfirst, ih hrest (Nat.succ.inj hlength)]

theorem encodeAll_cut (columns : List Column) (row : List Nat) :
    LittleEndian.encodeAll ((columns.map layout.columnBytes).zip (layout.cut columns row)) =
      LittleEndian.encodeAll ((columns.map layout.columnBytes).zip row) := by
  induction columns generalizing row with
  | nil => rfl
  | cons column columns ih =>
    cases row with
    | nil => rfl
    | cons value row =>
      rw [cut_cons, List.map_cons, List.zip_cons_cons, List.zip_cons_cons]
      show LittleEndian.encode _ _ ++ LittleEndian.encodeAll _ =
        LittleEndian.encode _ _ ++ LittleEndian.encodeAll _
      rw [LittleEndian.encode_mod, ih]

theorem bound_codedBytes (kind : CodedKind) :
    ∃ bits, kind.tagBits ≤ bits ∧
      LittleEndian.bound (layout.columnBytes (.coded kind)) = 1 <<< bits := by
  have htag : kind.tagBits ≤ 16 := by cases kind <;> decide
  have hwidth : ∀ isWide, ∃ bits, 16 ≤ bits ∧ LittleEndian.bound (width isWide) = 1 <<< bits := by
    intro isWide
    cases isWide with
    | false => exact ⟨16, by decide, rfl⟩
    | true => exact ⟨32, by decide, rfl⟩
  obtain ⟨bits, hbits, hbound⟩ := hwidth (layout.isCodedLarge kind)
  exact ⟨bits, Nat.le_trans htag hbits, hbound⟩

/-- Columns that can be read can be read where values are cut. -/
theorem readsAs_cut (h : ReadsAs columns row cells) :
    ∃ cells', ReadsAs columns (layout.cut columns row) cells' := by
  induction h with
  | nil => exact ⟨_, .nil⟩
  | number plain _ ih =>
    obtain ⟨cells', hrest⟩ := ih
    exact ⟨_, .number plain hrest⟩
  | coded kind token _ ih =>
    obtain ⟨cells', hrest⟩ := ih
    obtain ⟨bits, hbits, hbound⟩ := layout.bound_codedBytes kind
    rw [cut_cons, hbound, CodedIndex.encode_mod kind token hbits]
    exact ⟨_, .coded kind _ hrest⟩

end Layout

/-! ## Tables -/

namespace TableRows

/-- The rows as far as the columns hold them. -/
def cut (rows : TableRows) (flags : Nat) : TableRows := fun table =>
  (rows table).map ((rows.layout flags).cut table.columns)

variable (rows : TableRows) (flags : Nat)

@[simp] theorem length_cut (table : TableId) :
    (rows.cut flags table).length = (rows table).length :=
  List.length_map _

theorem isEmpty_cut (table : TableId) : (rows.cut flags table).isEmpty = (rows table).isEmpty := by
  rw [cut, List.isEmpty_map]

theorem layout_cut (flags' : Nat) : (rows.cut flags).layout flags' = rows.layout flags' := by
  simp only [layout, counts, length_cut]

theorem present_cut : (rows.cut flags).present = rows.present := by
  simp only [present, isEmpty_cut]

theorem encodeRow_cut (table : TableId) (row : List Nat) :
    encodeRow (rows.layout flags) table ((rows.layout flags).cut table.columns row) =
      encodeRow (rows.layout flags) table row :=
  (rows.layout flags).encodeAll_cut table.columns row

theorem tableBytes_cut (table : TableId) :
    (rows.cut flags).tableBytes (rows.layout flags) table =
      rows.tableBytes (rows.layout flags) table := by
  simp only [tableBytes, cut, List.flatMap_map, encodeRow_cut]

/-- Rows and their cut form have the same bytes. -/
theorem stream_cut : (rows.cut flags).stream flags = rows.stream flags := by
  have hbody : (rows.cut flags).body (rows.layout flags) = rows.body (rows.layout flags) := by
    rw [body_eq, body_eq, funext (tableBytes_cut rows flags)]
  have hheader : (rows.cut flags).header flags = rows.header flags := by
    simp only [header, valid, present_cut, length_cut]
  rw [stream, layout_cut, hbody, hheader, stream]

theorem fits_cut (hcounts : ∀ table, (rows table).length < LittleEndian.bound 4) :
    (rows.cut flags).Fits flags := by
  refine ⟨fun table => ?_, fun table row hrow => ?_⟩
  · rw [length_cut]
    exact hcounts table
  · obtain ⟨written, -, rfl⟩ := List.mem_map.1 hrow
    rw [layout_cut]
    exact (rows.layout flags).fits_cut table.columns written

theorem readable_cut (h : rows.Readable) : (rows.cut flags).Readable := by
  intro table row hrow
  obtain ⟨written, hwritten, rfl⟩ := List.mem_map.1 hrow
  obtain ⟨cells, hcells⟩ := h table written hwritten
  exact (rows.layout flags).readsAs_cut hcells

/-- The stream has a byte or more for every row. -/
theorem length_le_stream (h : rows.Readable) (table : TableId) :
    (rows table).length ≤ (rows.stream flags).length := by
  obtain ⟨front, back, hstream, -⟩ := stream_eq_table flags h table
  have hbytes : (rows.tableBytes (rows.layout flags) table).length = _ := length_tableBytes h table
  have hpos := Nat.mul_le_mul_left ((rows.layout flags).rowCount table)
    ((rows.layout flags).rowSize_pos table)
  rw [hstream, List.length_append, List.length_append, hbytes, Layout.tableBytes]
  rw [rowCount_layout] at hpos ⊢
  omega

end TableRows

/-! ## Sizes -/

theorem Alignment.length_padded_le (bytes : List UInt8) :
    (padded 4 bytes).length ≤ bytes.length + 3 := by
  simp only [padded, padding, roundUp, roundDown, List.length_append, List.length_replicate]
  omega

/-- No table has more than nine columns, and no column has more than four bytes. -/
theorem Layout.rowSize_le (layout : Layout) (table : TableId) : layout.rowSize table ≤ 36 := by
  have hwidth : ∀ isWide, width isWide ≤ 4 := by decide
  have hcolumn : ∀ column, layout.columnBytes column ≤ 4 := by
    intro column
    cases column with
    | short => exact hwidth false
    | long => exact hwidth true
    | _ => exact hwidth _
  have hcolumns : table.columns.length ≤ 9 := by cases table <;> decide
  have hsize : ∀ columns : List Column,
      (columns.map layout.columnBytes).foldr (· + ·) 0 ≤ 4 * columns.length := by
    intro columns
    induction columns with
    | nil => exact Nat.le_refl 0
    | cons column columns ih =>
      have hfirst := hcolumn column
      rw [List.map_cons, List.foldr_cons, List.length_cons]
      omega
  exact Nat.le_trans (hsize table.columns) (Nat.mul_le_mul_left 4 hcolumns)

/-- The stream is not larger than the most rows that a table has require. -/
theorem TableRows.length_stream_le {rows : TableRows} (hread : rows.Readable) {most : Nat}
    (hrows : ∀ table, (rows table).length ≤ most) (flags : Nat) :
    (rows.stream flags).length ≤ 207 + 45 * (most * 36) := by
  have hbody : ∀ tables : List TableId,
      (tables.flatMap (rows.tableBytes (rows.layout flags))).length ≤
        tables.length * (most * 36) := by
    intro tables
    induction tables with
    | nil => simp
    | cons table tables ih =>
      have htable := Nat.mul_le_mul (hrows table) ((rows.layout flags).rowSize_le table)
      rw [List.flatMap_cons, List.length_append, length_tableBytes hread, Layout.tableBytes,
        rowCount_layout, List.length_cons, Nat.succ_mul]
      omega
  have hheader : (rows.header flags).length ≤ 24 + 4 * 45 := by
    have hpresent : rows.present.length ≤ 45 := List.length_filter_le _ _
    have hcounts : ∀ tables : List TableId, ((tables.map fun table =>
        (4, (rows table).length)).map Prod.fst).foldr (· + ·) 0 = 4 * tables.length := by
      intro tables
      induction tables with
      | nil => rfl
      | cons table tables ih =>
        rw [List.map_cons, List.map_cons, List.foldr_cons, ih, List.length_cons, Nat.mul_succ,
          Nat.add_comm]
    rw [header, LittleEndian.length_encodeAll, List.map_append, List.foldr_append, hcounts]
    simp only [List.map_cons, List.map_nil, List.foldr_cons, List.foldr_nil]
    omega
  have hall := hbody TableId.all
  have hpadded := Alignment.length_padded_le (rows.header flags ++ rows.body (rows.layout flags))
  rw [List.length_append, body_eq] at hpadded
  rw [stream, body_eq]
  rw [show TableId.all.length = 45 from rfl] at hall
  omega

end ApiCensus
