/-
  The rows of a table are its columns.

  * `RowKind`: the kinds of rows that can be read; `RowKind.cells` lists the fields of a row in
    the order of the columns.
  * `Layout.cellsAt`: what the columns of a table hold, from the widths of the columns alone.
  * `RowKind.read_cells`: a row is read as its columns are read one after the other.
  * `RowKind.get_columns`: a row of a table has the numbers that its columns hold.
-/
import ApiCensus.Metadata.Table
import ApiCensus.Proofs.Attempt

namespace ApiCensus

open Attempt

/-! ## Kinds of rows -/

/-- What a column of a row holds. -/
inductive Cell where
  | number (value : Nat)
  | index (index : CodedIndex)
  deriving DecidableEq

/-- The kinds of rows that can be read. -/
inductive RowKind where
  | assembly | assemblyRef | customAttribute | event | eventMap | eventPtr | field | fieldPtr
  | interfaceImpl | memberRef | methodDef | methodPtr | methodImpl | methodSemantics
  | property | propertyMap | propertyPtr | nestedClass | typeDef | typeRef | typeSpec
  deriving DecidableEq

namespace RowKind

/-- The rows of a kind. -/
@[reducible] def Row : RowKind → Type
  | .assembly => AssemblyRow
  | .assemblyRef => AssemblyRefRow
  | .customAttribute => CustomAttributeRow
  | .event => EventRow
  | .eventMap => EventMapRow
  | .eventPtr => EventPtrRow
  | .field => FieldRow
  | .fieldPtr => FieldPtrRow
  | .interfaceImpl => InterfaceImplRow
  | .memberRef => MemberRefRow
  | .methodDef => MethodDefRow
  | .methodPtr => MethodPtrRow
  | .methodImpl => MethodImplRow
  | .methodSemantics => MethodSemanticsRow
  | .property => PropertyRow
  | .propertyMap => PropertyMapRow
  | .propertyPtr => PropertyPtrRow
  | .nestedClass => NestedClassRow
  | .typeDef => TypeDefRow
  | .typeRef => TypeRefRow
  | .typeSpec => TypeSpecRow

instance metadataRow : (kind : RowKind) → MetadataRow kind.Row
  | .assembly => inferInstanceAs (MetadataRow AssemblyRow)
  | .assemblyRef => inferInstanceAs (MetadataRow AssemblyRefRow)
  | .customAttribute => inferInstanceAs (MetadataRow CustomAttributeRow)
  | .event => inferInstanceAs (MetadataRow EventRow)
  | .eventMap => inferInstanceAs (MetadataRow EventMapRow)
  | .eventPtr => inferInstanceAs (MetadataRow EventPtrRow)
  | .field => inferInstanceAs (MetadataRow FieldRow)
  | .fieldPtr => inferInstanceAs (MetadataRow FieldPtrRow)
  | .interfaceImpl => inferInstanceAs (MetadataRow InterfaceImplRow)
  | .memberRef => inferInstanceAs (MetadataRow MemberRefRow)
  | .methodDef => inferInstanceAs (MetadataRow MethodDefRow)
  | .methodPtr => inferInstanceAs (MetadataRow MethodPtrRow)
  | .methodImpl => inferInstanceAs (MetadataRow MethodImplRow)
  | .methodSemantics => inferInstanceAs (MetadataRow MethodSemanticsRow)
  | .property => inferInstanceAs (MetadataRow PropertyRow)
  | .propertyMap => inferInstanceAs (MetadataRow PropertyMapRow)
  | .propertyPtr => inferInstanceAs (MetadataRow PropertyPtrRow)
  | .nestedClass => inferInstanceAs (MetadataRow NestedClassRow)
  | .typeDef => inferInstanceAs (MetadataRow TypeDefRow)
  | .typeRef => inferInstanceAs (MetadataRow TypeRefRow)
  | .typeSpec => inferInstanceAs (MetadataRow TypeSpecRow)

/-- The table that holds the rows. -/
def table (kind : RowKind) : TableId :=
  MetadataRow.table kind.Row

/-- The number of a row. -/
def rid : (kind : RowKind) → kind.Row → Nat
  | .assembly => AssemblyRow.rid
  | .assemblyRef => AssemblyRefRow.rid
  | .customAttribute => CustomAttributeRow.rid
  | .event => EventRow.rid
  | .eventMap => EventMapRow.rid
  | .eventPtr => EventPtrRow.rid
  | .field => FieldRow.rid
  | .fieldPtr => FieldPtrRow.rid
  | .interfaceImpl => InterfaceImplRow.rid
  | .memberRef => MemberRefRow.rid
  | .methodDef => MethodDefRow.rid
  | .methodPtr => MethodPtrRow.rid
  | .methodImpl => MethodImplRow.rid
  | .methodSemantics => MethodSemanticsRow.rid
  | .property => PropertyRow.rid
  | .propertyMap => PropertyMapRow.rid
  | .propertyPtr => PropertyPtrRow.rid
  | .nestedClass => NestedClassRow.rid
  | .typeDef => TypeDefRow.rid
  | .typeRef => TypeRefRow.rid
  | .typeSpec => TypeSpecRow.rid

/-- The fields of a row, in the order of the columns of its table. -/
def cells : (kind : RowKind) → kind.Row → List Cell
  | .assembly => fun row : AssemblyRow =>
    [.number row.hashAlgorithm, .number row.version.major, .number row.version.minor,
     .number row.version.build, .number row.version.revision, .number row.flags,
     .number row.publicKey, .number row.name, .number row.culture]
  | .assemblyRef => fun row : AssemblyRefRow =>
    [.number row.version.major, .number row.version.minor, .number row.version.build,
     .number row.version.revision, .number row.flags, .number row.publicKeyOrToken,
     .number row.name, .number row.culture, .number row.hashValue]
  | .customAttribute => fun row : CustomAttributeRow =>
    [.index row.parent, .index row.constructor, .number row.value]
  | .event => fun row : EventRow =>
    [.number row.flags, .number row.name, .index row.eventType]
  | .eventMap => fun row : EventMapRow =>
    [.number row.parent, .number row.eventList]
  | .eventPtr => fun row : EventPtrRow =>
    [.number row.event]
  | .field => fun row : FieldRow =>
    [.number row.flags, .number row.name, .number row.signature]
  | .fieldPtr => fun row : FieldPtrRow =>
    [.number row.field]
  | .interfaceImpl => fun row : InterfaceImplRow =>
    [.number row.owner, .index row.interface]
  | .memberRef => fun row : MemberRefRow =>
    [.index row.parent, .number row.name, .number row.signature]
  | .methodDef => fun row : MethodDefRow =>
    [.number row.address, .number row.implFlags, .number row.flags, .number row.name,
     .number row.signature, .number row.paramList]
  | .methodPtr => fun row : MethodPtrRow =>
    [.number row.method]
  | .methodImpl => fun row : MethodImplRow =>
    [.number row.owner, .index row.body, .index row.declaration]
  | .methodSemantics => fun row : MethodSemanticsRow =>
    [.number row.semantics, .number row.method, .index row.association]
  | .property => fun row : PropertyRow =>
    [.number row.flags, .number row.name, .number row.signature]
  | .propertyMap => fun row : PropertyMapRow =>
    [.number row.parent, .number row.propertyList]
  | .propertyPtr => fun row : PropertyPtrRow =>
    [.number row.property]
  | .nestedClass => fun row : NestedClassRow =>
    [.number row.nested, .number row.enclosing]
  | .typeDef => fun row : TypeDefRow =>
    [.number row.flags, .number row.name, .number row.nameSpace, .index row.base,
     .number row.fieldList, .number row.methodList]
  | .typeRef => fun row : TypeRefRow =>
    [.index row.scope, .number row.name, .number row.nameSpace]
  | .typeSpec => fun row : TypeSpecRow =>
    [.number row.signature]

/-- The number and the fields of a row are all of it. -/
theorem eq_of_cells {kind : RowKind} {row other : kind.Row} (hr : kind.rid row = kind.rid other)
    (hc : kind.cells row = kind.cells other) : row = other := by
  cases kind
  case assembly =>
    obtain ⟨_, _, ⟨_, _, _, _⟩, _, _, _, _⟩ := row
    obtain ⟨_, _, ⟨_, _, _, _⟩, _, _, _, _⟩ := other
    simp only [cells, List.cons.injEq, Cell.number.injEq, and_true] at hc
    simp only [RowKind.rid] at hr
    simp only [hr, hc]
  case assemblyRef =>
    obtain ⟨_, ⟨_, _, _, _⟩, _, _, _, _, _⟩ := row
    obtain ⟨_, ⟨_, _, _, _⟩, _, _, _, _, _⟩ := other
    simp only [cells, List.cons.injEq, Cell.number.injEq, and_true] at hc
    simp only [RowKind.rid] at hr
    simp only [hr, hc]
  all_goals
    cases row
    cases other
    simp only [cells, List.cons.injEq, Cell.number.injEq, Cell.index.injEq, and_true] at hc
    simp only [RowKind.rid] at hr
    simp only [hr, hc]

end RowKind

/-! ## Widths -/

namespace Layout

variable (layout : Layout)

theorem isLarge_eq (table : TableId) : layout.isLarge table = decide (16 < layout.bits table) := by
  rw [isLarge, bits]
  split
  · rename_i hc
    rw [hc]
    rfl
  · rename_i count hc
    have hlog : 16 ≤ Nat.log2 (layout.rowCount table) ↔ 2 ^ 16 ≤ layout.rowCount table :=
      Nat.le_log2 hc
    rw [decide_eq_decide]
    omega

theorem two_le_columnBytes (column : Column) : 2 ≤ layout.columnBytes column := by
  have hwidth : ∀ isWide, 2 ≤ width isWide := fun isWide => by cases isWide <;> decide
  cases column with
  | short => exact Nat.le_refl 2
  | long => exact (by decide : 2 ≤ 4)
  | text => exact hwidth _
  | guid => exact hwidth _
  | blob => exact hwidth _
  | row table => exact hwidth _
  | coded kind => exact hwidth _

/-- The width of several columns. -/
def size (columns : List Column) : Nat :=
  (columns.map layout.columnBytes).foldr (· + ·) 0

theorem size_cons (column : Column) (columns : List Column) :
    layout.size (column :: columns) = layout.columnBytes column + layout.size columns := rfl

/-- Every table has a column. -/
theorem two_le_rowSize (table : TableId) : 2 ≤ layout.rowSize table := by
  have hcolumns : table.columns ≠ [] := by cases table <;> simp [TableId.columns]
  obtain ⟨column, columns, hc⟩ := List.exists_cons_of_ne_nil hcolumns
  have hwidth := layout.two_le_columnBytes column
  have hsize : layout.rowSize table = layout.columnBytes column + layout.size columns := by
    rw [rowSize, hc]
    rfl
  omega

theorem rowSize_pos (table : TableId) : 0 < layout.rowSize table :=
  Nat.lt_of_lt_of_le Nat.two_pos (layout.two_le_rowSize table)

/-! ## Columns -/

/-- What a column holds that lies at a position. -/
def cellAt (data : ByteArray) (pos : Nat) (column : Column) : Except Fault Cell :=
  let value := LittleEndian.valueAt data pos (layout.columnBytes column)
  match column with
  | .coded kind => .index <$> CodedIndex.decode kind value
  | _ => .ok (.number value)

/-- What columns hold that lie one behind the other. -/
def cellsAt (data : ByteArray) : Nat → List Column → Except Fault (List Cell)
  | _, [] => .ok []
  | pos, column :: columns => do
    let cell ← layout.cellAt data pos column
    let cells ← cellsAt data (pos + layout.columnBytes column) columns
    pure (cell :: cells)

/-- Reads a column. -/
def readCell : Column → Attempt Cursor Cell
  | .coded kind => .index <$> CodedIndex.read layout kind
  | column => .number <$> Cursor.number (layout.columnBytes column)

/-- Reads columns. -/
def readCells : List Column → Attempt Cursor (List Cell)
  | [] => pure []
  | column :: columns => do
    let cell ← layout.readCell column
    let cells ← readCells columns
    pure (cell :: cells)

variable {layout} {data : ByteArray} {pos : Nat}

theorem number_apply {width : Nat} (h : pos + width ≤ data.size) :
    Cursor.number width { data, pos } =
      (.ok (LittleEndian.valueAt data pos width), { data, pos := pos + width }) := by
  rw [Cursor.number, LittleEndian.read?, if_pos h]

theorem readCell_apply {column : Column} (h : pos + layout.columnBytes column ≤ data.size) :
    layout.readCell column { data, pos } =
      (layout.cellAt data pos column, { data, pos := pos + layout.columnBytes column }) := by
  cases column with
  | coded kind =>
    have hread : CodedIndex.read layout kind { data, pos } =
        (CodedIndex.decode kind (LittleEndian.valueAt data pos (layout.codedBytes kind)),
          { data, pos := pos + layout.codedBytes kind }) :=
      bind_apply_ok (number_apply h)
    rw [readCell, cellAt, map_eq_pure_bind, bind_apply, hread]
    simp only [columnBytes]
    cases CodedIndex.decode kind (LittleEndian.valueAt data pos (layout.codedBytes kind)) <;> rfl
  | _ => exact bind_apply_ok (number_apply h)

theorem readCells_apply {columns : List Column} (h : pos + layout.size columns ≤ data.size) :
    (layout.readCells columns { data, pos }).1 = layout.cellsAt data pos columns ∧
      ∀ cells, layout.cellsAt data pos columns = .ok cells →
        (layout.readCells columns { data, pos }).2 = { data, pos := pos + layout.size columns } := by
  induction columns generalizing pos with
  | nil => exact ⟨rfl, fun _ _ => rfl⟩
  | cons column columns ih =>
    rw [size_cons] at h
    have hcell : layout.readCell column { data, pos } = _ := readCell_apply (by omega)
    obtain ⟨hresult, hcursor⟩ : (layout.readCells columns
        { data, pos := pos + layout.columnBytes column }).1 = _ ∧ _ := ih (by omega)
    rw [cellsAt, readCells, bind_apply, hcell]
    cases layout.cellAt data pos column with
    | error fault => exact ⟨rfl, fun cells hcells => absurd hcells (by simp [bind, Except.bind])⟩
    | ok cell =>
      show ((layout.readCells columns >>= fun cells => pure (cell :: cells)) _).1 = _ ∧ ∀ cells, _ →
        ((layout.readCells columns >>= fun cells => pure (cell :: cells)) _).2 = _
      rw [bind_apply]
      rcases hrun : layout.readCells columns { data, pos := pos + layout.columnBytes column } with
        ⟨fault | cells, cursor⟩ <;> rw [hrun] at hresult hcursor <;> rw [← hresult]
      · exact ⟨rfl, fun cells hcells => absurd hcells (by simp [bind, Except.bind])⟩
      · refine ⟨rfl, fun _ _ => ?_⟩
        obtain rfl : cursor = _ := hcursor cells hresult.symm
        rw [size_cons, Nat.add_assoc]
        rfl

theorem decode_error {kind : CodedKind} {value : Nat} {fault : Fault}
    (h : CodedIndex.decode kind value = .error fault) :
    kind.tables[value % (1 <<< kind.tagBits)]? = none ∧
      fault = .malformed (.codedTag (value % (1 <<< kind.tagBits)) kind) := by
  unfold CodedIndex.decode at h
  simp only at h
  split at h
  · simp at h
  · rename_i htag
    exact ⟨htag, (Except.error.inj h).symm⟩

/-- Only a coded index keeps columns from being read. -/
theorem cellsAt_error {columns : List Column} {fault : Fault}
    (h : layout.cellsAt data pos columns = .error fault) :
    ∃ before coded after, columns = before ++ .coded coded :: after ∧
      CodedIndex.decode coded
        (LittleEndian.valueAt data (pos + layout.size before) (layout.codedBytes coded)) =
          .error fault := by
  induction columns generalizing pos with
  | nil => simp [cellsAt] at h
  | cons column columns ih =>
    rw [cellsAt] at h
    cases hcell : layout.cellAt data pos column with
    | error cause =>
      rw [hcell] at h
      obtain rfl : cause = fault := Except.error.inj h
      cases column with
      | coded coded =>
        refine ⟨[], coded, columns, rfl, ?_⟩
        show CodedIndex.decode coded (LittleEndian.valueAt data pos (layout.codedBytes coded)) = _
        cases hd : CodedIndex.decode coded
            (LittleEndian.valueAt data pos (layout.codedBytes coded)) with
        | error other =>
          rw [cellAt, columnBytes, hd] at hcell
          rw [Except.error.inj hcell]
        | ok index =>
          rw [cellAt, columnBytes, hd] at hcell
          simp [Functor.map, Except.map] at hcell
      | _ => simp [cellAt] at hcell
    | ok cell =>
      rw [hcell] at h
      cases hrest : layout.cellsAt data (pos + layout.columnBytes column) columns with
      | error cause =>
        obtain rfl : cause = fault := by
          rw [hrest] at h
          exact Except.error.inj h
        obtain ⟨before, coded, after, hcolumns, hd⟩ := ih hrest
        refine ⟨column :: before, coded, after, by rw [hcolumns]; rfl, ?_⟩
        rw [size_cons, ← Nat.add_assoc, hd]
      | ok cells =>
        rw [hrest] at h
        simp [bind, Except.bind, pure, Except.pure] at h

theorem valueAt_congr {other : ByteArray} {width : Nat}
    (h : ∀ i, pos ≤ i → i < pos + width → other[i]? = data[i]?) :
    LittleEndian.valueAt other pos width = LittleEndian.valueAt data pos width := by
  induction width generalizing pos with
  | zero => rfl
  | succ width ih =>
    have hrest : LittleEndian.valueAt other (pos + 1) width = _ :=
      ih fun i hl hr => h i (by omega) (by omega)
    rw [LittleEndian.valueAt, LittleEndian.valueAt, hrest, h pos (by omega) (by omega)]

theorem cellsAt_congr {other : ByteArray} {columns : List Column}
    (h : ∀ i, pos ≤ i → i < pos + layout.size columns → other[i]? = data[i]?) :
    layout.cellsAt other pos columns = layout.cellsAt data pos columns := by
  induction columns generalizing pos with
  | nil => rfl
  | cons column columns ih =>
    rw [size_cons] at h
    have hcell : layout.cellAt other pos column = layout.cellAt data pos column := by
      have hvalue : LittleEndian.valueAt other pos (layout.columnBytes column) = _ :=
        valueAt_congr fun i hl hr => h i hl (by omega)
      simp only [cellAt, hvalue]
    have hrest : layout.cellsAt other (pos + layout.columnBytes column) columns = _ :=
      ih fun i hl hr => h i (by omega) (by omega)
    rw [cellsAt, cellsAt, hcell, hrest]

end Layout

/-- **A row is read as its columns are read, one after the other.** -/
theorem RowKind.read_cells (kind : RowKind) (layout : Layout) (rid : Nat) :
    (fun row => (kind.rid row, kind.cells row)) <$>
        (MetadataRow.read layout rid : Attempt Cursor kind.Row) =
      (fun cells => (rid, cells)) <$> layout.readCells kind.table.columns := by
  cases kind
  all_goals
    simp only [MetadataRow.read, AssemblyVersion.read, Cursor.index, Layout.isLarge_eq,
      RowKind.table, MetadataRow.table, TableId.columns, Layout.readCells, Layout.readCell,
      map_eq_pure_bind, bind_assoc, pure_bind]
    rfl

/-! ## Rows of a table -/

namespace RowKind

variable {kind : RowKind} {layout : Layout} {data : ByteArray} {count rid : Nat}

/-- Where a row starts in the bytes of its table. -/
def start (kind : RowKind) (layout : Layout) (rid : Nat) : Nat :=
  (rid - 1) * layout.rowSize kind.table

/-- The table of the rows of a kind. -/
def tableOf (kind : RowKind) (layout : Layout) (data : ByteArray) (count : Nat) :
    Table kind.Row :=
  { data, count, layout }

theorem stop_le (hpos : 1 ≤ rid) (hle : rid ≤ count) :
    kind.start layout rid + layout.rowSize kind.table ≤ count * layout.rowSize kind.table := by
  rw [start, ← Nat.succ_mul, Nat.succ_eq_add_one, Nat.sub_add_cancel hpos]
  exact Nat.mul_le_mul_right _ hle

theorem get_eq_read (hpos : 1 ≤ rid) (hle : rid ≤ count) :
    (kind.tableOf layout data count).get rid =
      ((MetadataRow.read layout rid : Attempt Cursor kind.Row)
        { data, pos := kind.start layout rid }).1 := by
  rw [Table.get, if_neg (by simp only [tableOf]; omega)]
  rfl

/-- A row has the number that it was asked for by. -/
theorem rid_of_get (kind : RowKind) {table : Table kind.Row} {row : kind.Row}
    (h : table.get rid = .ok row) : kind.rid row = rid := by
  rw [Table.get] at h
  split at h
  · simp at h
  · have hread := congrFun (kind.read_cells table.layout rid)
      { data := table.data, pos := (rid - 1) * table.layout.rowSize (MetadataRow.table kind.Row) }
    rw [map_apply, map_apply] at hread
    have hcells := (Prod.mk.inj hread).1
    rw [show (MetadataRow.read table.layout rid : Attempt Cursor kind.Row) _ = (.ok row, _) from
      Prod.ext h rfl] at hcells
    rcases hrun : (table.layout.readCells kind.table.columns _).1 with fault | cells <;>
      rw [hrun] at hcells
    · simp [Except.map] at hcells
    · exact (Prod.mk.inj (Except.ok.inj hcells)).1

/-- What is read where a row lies in its table. -/
theorem read_start (hsize : kind.start layout rid + layout.rowSize kind.table ≤ data.size) :
    let run := (MetadataRow.read layout rid : Attempt Cursor kind.Row)
      { data, pos := kind.start layout rid }
    run.1.map (fun row => (kind.rid row, kind.cells row)) =
        (layout.cellsAt data (kind.start layout rid) kind.table.columns).map (rid, ·) ∧
      ∀ row, run.1 = .ok row →
        run.2 = { data, pos := kind.start layout rid + layout.rowSize kind.table } := by
  have hread := congrFun (kind.read_cells layout rid) { data, pos := kind.start layout rid }
  rw [map_apply, map_apply] at hread
  obtain ⟨hresult, hcursor⟩ := Prod.mk.inj hread
  obtain ⟨hcells, hstop⟩ : (layout.readCells kind.table.columns _).1 = _ ∧ _ :=
    Layout.readCells_apply hsize
  refine ⟨by rw [hresult, hcells], fun row hrow => ?_⟩
  rw [hrow, hcells] at hresult
  rw [hcursor]
  cases hc : layout.cellsAt data (kind.start layout rid) kind.table.columns with
  | error fault =>
    rw [hc] at hresult
    simp [Except.map] at hresult
  | ok cells => exact hstop cells hc

/-- The bytes of a row decide what is read. -/
theorem read_congr {other : ByteArray}
    (hstop : kind.start layout rid + layout.rowSize kind.table ≤ data.size)
    (h : ∀ i, kind.start layout rid ≤ i →
      i < kind.start layout rid + layout.rowSize kind.table → other[i]? = data[i]?) :
    ((MetadataRow.read layout rid : Attempt Cursor kind.Row)
        { data := other, pos := kind.start layout rid }).1 =
      ((MetadataRow.read layout rid : Attempt Cursor kind.Row)
        { data, pos := kind.start layout rid }).1 := by
  have hpos := layout.rowSize_pos kind.table
  -- The last byte of the row is there, so the other bytes reach that far.
  have hother : kind.start layout rid + layout.rowSize kind.table ≤ other.size := by
    by_cases hlast : kind.start layout rid + layout.rowSize kind.table - 1 < other.size
    · omega
    · have hbyte := h (kind.start layout rid + layout.rowSize kind.table - 1) (by omega) (by omega)
      rw [getElem?_neg other _ hlast, getElem?_pos data _ (by omega)] at hbyte
      simp at hbyte
  obtain ⟨hcells, -⟩ := @read_start kind layout data rid hstop
  obtain ⟨hcells', -⟩ := @read_start kind layout other rid hother
  rw [Layout.cellsAt_congr h, ← hcells] at hcells'
  rcases hr : ((MetadataRow.read layout rid : Attempt Cursor kind.Row)
    { data, pos := kind.start layout rid }).1 with fault | row <;>
  rcases hr' : ((MetadataRow.read layout rid : Attempt Cursor kind.Row)
    { data := other, pos := kind.start layout rid }).1 with fault' | row' <;>
  rw [hr, hr'] at hcells'
  · exact congrArg Except.error (Except.error.inj hcells')
  · simp [Except.map] at hcells'
  · simp [Except.map] at hcells'
  · obtain ⟨hrid, hsame⟩ := Prod.mk.inj (Except.ok.inj hcells')
    rw [eq_of_cells hrid hsame]

/-- **A row of a table has the numbers that the columns of the table hold where the row lies, and
    its reading stops where the row ends. It fails only because of a coded index whose tag has no
    table. No other bytes are looked at.** -/
theorem get_columns (hsize : count * layout.rowSize kind.table ≤ data.size) (hpos : 1 ≤ rid)
    (hle : rid ≤ count) :
    ((kind.tableOf layout data count).get rid).map (fun row => (kind.rid row, kind.cells row)) =
        (layout.cellsAt data (kind.start layout rid) kind.table.columns).map (rid, ·) ∧
    (∀ row, (kind.tableOf layout data count).get rid = .ok row →
      (MetadataRow.read layout rid : Attempt Cursor kind.Row)
          { data, pos := kind.start layout rid } =
        (.ok row, { data, pos := kind.start layout rid + layout.rowSize kind.table })) ∧
    (∀ fault, (kind.tableOf layout data count).get rid = .error fault →
      ∃ before coded after tag, kind.table.columns = before ++ .coded coded :: after ∧
        tag = LittleEndian.valueAt data (kind.start layout rid + layout.size before)
          (layout.codedBytes coded) % (1 <<< coded.tagBits) ∧
        coded.tables[tag]? = none ∧ fault = .malformed (.codedTag tag coded)) ∧
    ∀ other : ByteArray,
      (∀ i, kind.start layout rid ≤ i → i < kind.start layout rid + layout.rowSize kind.table →
        other[i]? = data[i]?) →
      (kind.tableOf layout other count).get rid = (kind.tableOf layout data count).get rid := by
  have hstop : kind.start layout rid + layout.rowSize kind.table ≤ data.size :=
    Nat.le_trans (stop_le hpos hle) hsize
  obtain ⟨hcells, hcursor⟩ := @read_start kind layout data rid hstop
  simp only [get_eq_read hpos hle]
  refine ⟨hcells, fun row hrow => Prod.ext hrow (hcursor row hrow), fun fault hfault => ?_, ?_⟩
  · rw [hfault] at hcells
    cases hc : layout.cellsAt data (kind.start layout rid) kind.table.columns with
    | ok cells =>
      rw [hc] at hcells
      simp [Except.map] at hcells
    | error cause =>
      rw [hc] at hcells
      obtain rfl : fault = cause := Except.error.inj hcells
      obtain ⟨before, coded, after, hcolumns, hdecode⟩ := Layout.cellsAt_error hc
      obtain ⟨htag, hfault⟩ := Layout.decode_error hdecode
      exact ⟨before, coded, after, _, hcolumns, rfl, htag, hfault⟩
  · intro other hother
    exact read_congr hstop hother

/-- The rows of two referenced types. -/
def twoReferences : ByteArray :=
  [6, 0, 1, 0, 3, 0, 7, 1, 0x2A, 0, 0, 1].toByteArray

theorem get_columns_twoReferences :
    2 * (Layout.ofCounts (.replicate _ 2) 0).rowSize RowKind.typeRef.table ≤ twoReferences.size ∧
      ((typeRef.tableOf (.ofCounts (.replicate _ 2) 0) twoReferences 2).get 2).map
          (fun row => (typeRef.rid row, typeRef.cells row)) =
        .ok (2, [.index ⟨.typeRef, 65⟩, .number 42, .number 256]) := by
  have hsize : 2 * (Layout.ofCounts (.replicate _ 2) 0).rowSize RowKind.typeRef.table ≤
      twoReferences.size := by decide +kernel
  refine ⟨hsize, (get_columns hsize (by decide) (Nat.le_refl 2)).1.trans ?_⟩
  rfl

end RowKind

end ApiCensus
