/-
  Every index of a heap in a module that was written resolves to what was passed for it.

  * `Assembly.itemAt`: what an index resolves to; `heapIndexes` are those of a row.
  * `ModuleDraft.map_rows`: the rows that are written hold the indexes of the module.
  * `ModuleDraft.Kept.items`: the indexes of a row resolve to what was passed for it.
  * `ModuleDraft.resolves_passed`: so they do after any steps.
-/
import ApiCensus.Proofs.Draft.Headers
import ApiCensus.Proofs.Draft.Interning

namespace ApiCensus

open Attempt

/-! ## Indexes of a row -/

/-- The index of a heap that a column holds. -/
def Column.heapIndex? : Column → Cell → Option HeapIndex
  | .text, .number index => some (.text index)
  | .blob, .number index => some (.bytes index)
  | _, _ => none

/-- An index fits its columns. -/
def HeapIndex.Fits (layout : Layout) : HeapIndex → Prop
  | .text index => index < LittleEndian.bound (layout.columnBytes .text)
  | .bytes index => index < LittleEndian.bound (layout.columnBytes .blob)

/-- The indexes of the heaps that columns hold. -/
def heapIndexes (columns : List Column) (cells : List Cell) : List HeapIndex :=
  (columns.zip cells).filterMap fun pair => pair.1.heapIndex? pair.2

/-- A table has a column that points into a heap. -/
def TableId.HasHeapColumn (table : TableId) : Prop :=
  .text ∈ table.columns ∨ .blob ∈ table.columns

namespace Assembly

/-- What an index of a heap resolves to. -/
def itemAt (assembly : Assembly) : HeapIndex → Except Fault HeapItem
  | .text index => (assembly.text index).map .text
  | .bytes index => (assembly.blob index).map .bytes

/-- What the columns of a row hold. -/
def cellsOf (assembly : Assembly) (table : TableId) (rid : Nat) : Except Fault (List Cell) :=
  assembly.stream.layout.cellsAt (assembly.bytesOf table)
    ((rid - 1) * assembly.stream.layout.rowSize table) table.columns

end Assembly

theorem heapIndexes_cons (column : Column) (columns : List Column) (cell : Cell)
    (cells : List Cell) : heapIndexes (column :: columns) (cell :: cells) =
      (column.heapIndex? cell).toList ++ heapIndexes columns cells := by
  rw [heapIndexes, List.zip_cons_cons, List.filterMap_cons]
  dsimp only
  cases column.heapIndex? cell <;> rfl

/-- A row reads as the indexes that were written. -/
theorem ReadsAs.heapIndexes_eq {columns : List Column} {row : List Nat} {cells : List Cell}
    (h : ReadsAs columns row cells) :
    heapIndexes columns cells = heapIndexes columns (row.map .number) := by
  induction h with
  | nil => rfl
  | number plain rest ih => rw [List.map_cons, heapIndexes_cons, heapIndexes_cons, ih]
  | coded kind token rest ih =>
    rw [List.map_cons, heapIndexes_cons, heapIndexes_cons, ih]
    rfl

/-! ## Rows that are written -/

namespace ModuleDraft

/-- The order of the rows of a table. -/
def keyLe (a b : IndexedRow) : Bool :=
  decide (a.key ≤ b.key)

/-- Rows are sorted as what they are made from. -/
theorem mergeSort_map {α β : Type} (f : α → β) (key : α → Nat) (rowKey : β → Nat)
    (h : ∀ a, rowKey (f a) = key a) (items : List α) :
    (items.map f).mergeSort (fun a b => decide (rowKey a ≤ rowKey b)) =
      (items.mergeSort fun a b => decide (key a ≤ key b)).map f :=
  (List.map_mergeSort fun a _ b _ => by rw [h, h]).symm

theorem mergeSort_of_keys {rows : List IndexedRow} (h : ∀ row ∈ rows, row.key = 0) :
    rows.mergeSort keyLe = rows := by
  refine List.mergeSort_of_pairwise (List.pairwise_of_forall_mem_list fun a ha b hb => ?_)
  rw [keyLe, h a ha, h b hb]
  rfl

/-- The rows that are written hold the indexes of the module. -/
theorem map_rows (draft : ModuleDraft) (hassembly : draft.hasAssembly = true) {table : TableId}
    (hheap : table.HasHeapColumn) :
    (draft.rows draft.addresses table).map
        (fun row => heapIndexes table.columns (row.map .number)) =
      ((draft.heapRows table).mergeSort keyLe).map IndexedRow.indexes := by
  cases table
  case customAttribute =>
    simp only [rows, heapRows, sortedBy]
    rw [mergeSort_map _ (fun given => CodedIndex.encode .hasCustomAttribute given.parent)
        (column 0) fun _ => rfl,
      show keyLe = fun a b => decide (a.key ≤ b.key) from rfl,
      mergeSort_map _ (fun given => CodedIndex.encode .hasCustomAttribute given.parent)
        IndexedRow.key fun _ => rfl, List.map_map, List.map_map]
    rfl
  case typeDef =>
    rw [mergeSort_of_keys (by simp [heapRows])]
    refine List.ext_getElem (by simp [rows, typeRows, heapRows]) fun index _ _ => ?_
    simp only [rows, typeRows, heapRows, List.getElem_map, List.getElem_mapIdx]
    rfl
  case methodDef =>
    have hlength := Nat.le_of_eq draft.length_addresses.symm
    rw [mergeSort_of_keys (by simp [heapRows]), heapRows, List.map_map,
      ← List.map_fst_zip hlength, rows, List.map_map, List.map_map]
    rfl
  case assembly =>
    rw [mergeSort_of_keys (by simp [heapRows]), rows, if_pos hassembly]
    rfl
  case module | typeRef | field | memberRef | event | property | typeSpec | assemblyRef =>
    rw [mergeSort_of_keys (by simp [heapRows])]
    simp only [rows, heapRows, List.map_map]
    rfl
  case param | constant | fieldMarshal | declSecurity | standAloneSig | moduleRef | implMap
      | assemblyProcessor | assemblyRefProcessor | file | exportedType | manifestResource
      | genericParam | methodSpec =>
    rw [mergeSort_of_keys (by simp [heapRows])]
    rfl
  all_goals simp [TableId.HasHeapColumn, TableId.columns] at hheap

/-! ## Widths of indexes -/

variable {draft : ModuleDraft} {passed : List PassedRow}

theorem heapIndexes_cut {layout : Layout} {columns : List Column} {row : List Nat}
    (h : ∀ index ∈ heapIndexes columns (row.map .number), index.Fits layout) :
    heapIndexes columns ((layout.cut columns row).map .number) =
      heapIndexes columns (row.map .number) := by
  induction columns generalizing row with
  | nil => rfl
  | cons column columns ih =>
    cases row with
    | nil => rfl
    | cons value row =>
      rw [List.map_cons, heapIndexes_cons] at h
      have hrest := ih fun index hindex => h index (List.mem_append_right _ hindex)
      have hfirst : column.heapIndex? (.number (value % LittleEndian.bound (layout.columnBytes column)))
          = column.heapIndex? (.number value) := by
        cases column with
        | text | blob =>
          have hfits : value < _ := h _ (List.mem_append_left _ (Option.mem_toList.2 rfl))
          rw [Nat.mod_eq_of_lt hfits]
        | _ => rfl
      rw [Layout.cut_cons, List.map_cons, heapIndexes_cons, hrest, hfirst, List.map_cons,
        heapIndexes_cons]

/-- An index of a heap fits as long as the heap is not too large for any index. -/
theorem Kept.fits (h : draft.Kept passed) (htexts : draft.texts.size < Compressed.bound)
    (hblobs : draft.blobs.size < Compressed.bound) {rows : TableRows} {index : HeapIndex}
    {item : HeapItem} (hheld : draft.Held index item) :
    index.Fits (rows.layout draft.heapFlags) := by
  have hwidth : ∀ {index size : Nat}, index < size → size < Compressed.bound →
      index < LittleEndian.bound (Layout.width (decide (0xFFFF < size))) := by
    intro index size hindex hsize
    have hbound : Compressed.bound < LittleEndian.bound 4 := by decide
    exact Layout.lt_bound_width (Nat.le_of_lt hindex)
      (Nat.lt_trans hindex (Nat.lt_trans hsize hbound))
  have hflags : ∀ wideText wideBlobs : Bool,
      (ApiCensus.heapFlags wideText wideBlobs).testBit 0 = wideText ∧
        (ApiCensus.heapFlags wideText wideBlobs).testBit 2 = wideBlobs := by decide
  obtain ⟨htextFlag, hblobFlag⟩ := hflags draft.texts.isLarge draft.blobs.isLarge
  cases index with
  | text index =>
    cases item with
    | bytes value => exact hheld.elim
    | text value =>
      have hlt := Heap.Holds.lt_length hheld (by simp [HeapValue.encode]) (by simp [HeapDraft.bytes])
      rw [← h.texts.size_eq] at hlt
      show index < LittleEndian.bound (Layout.width (draft.heapFlags.testBit 0))
      rw [ModuleDraft.heapFlags, htextFlag]
      exact hwidth hlt htexts
  | bytes index =>
    cases item with
    | text value => exact hheld.elim
    | bytes value =>
      have hencode : HeapValue.encode value ≠ [] :=
        List.append_ne_nil_of_left_ne_nil (Compressed.encode_ne_nil value.size) _
      have hlt := Heap.Holds.lt_length hheld hencode (by simp [HeapDraft.bytes])
      rw [← h.blobs.size_eq] at hlt
      show index < LittleEndian.bound (Layout.width (draft.heapFlags.testBit 2))
      rw [ModuleDraft.heapFlags, hblobFlag]
      exact hwidth hlt hblobs

theorem Kept.forall_fits (h : draft.Kept passed) (htexts : draft.texts.size < Compressed.bound)
    (hblobs : draft.blobs.size < Compressed.bound) {rows : TableRows} {indexes : List HeapIndex}
    {items : List HeapItem} (hheld : List.Forall₂ draft.Held indexes items) :
    ∀ index ∈ indexes, index.Fits (rows.layout draft.heapFlags) := by
  induction hheld with
  | nil => simp
  | cons hfirst _ ih =>
    intro index hindex
    rcases List.mem_cons.1 hindex with rfl | hindex
    · exact h.fits htexts hblobs hfirst
    · exact ih index hindex

/-! ## What the indexes resolve to -/

/-- No text that is passed has a zero byte. -/
def NulFree (passed : List PassedRow) : Prop :=
  ∀ given ∈ passed, ∀ text, .text text ∈ given.items → 0 ∉ text.toUTF8.data.toList

theorem size_lt_of_holds {bytes : List UInt8} {index : Nat} {value : ByteArray}
    (h : Heap.Holds bytes index value) (hsize : bytes.length < Compressed.bound) :
    value.size < Compressed.bound := by
  unfold Heap.Holds at h
  split at h
  · have hempty : (value.size == 0) = true := ‹HeapValue.isEmpty value = true›
    rw [eq_of_beq hempty]
    decide
  · obtain ⟨front, back, rfl, -⟩ := h
    simp only [HeapValue.encode, List.length_append, Array.length_toList, ByteArray.size_data] at hsize
    omega

/-- An index resolves to the value that it holds. -/
theorem ReadsBack.itemAt {assembly : Assembly} (hread : draft.ReadsBack assembly)
    (h : draft.Kept passed) (hblobs : draft.blobs.size < Compressed.bound) {index : HeapIndex}
    {item : HeapItem} (hheld : draft.Held index item)
    (hzero : ∀ text, item = .text text → 0 ∉ text.toUTF8.data.toList) :
    assembly.itemAt index = .ok item := by
  cases index with
  | text index =>
    cases item with
    | bytes value => exact hheld.elim
    | text value =>
      have hpadded := Heap.Holds.append hheld (Alignment.padding 4 draft.texts.bytes.length)
      rw [Assembly.itemAt, Assembly.text, hread.strings, Alignment.padded,
        Heap.text_of_holds hpadded (hzero value rfl)]
      rfl
  | bytes index =>
    cases item with
    | text value => exact hheld.elim
    | bytes value =>
      rw [h.blobs.size_eq] at hblobs
      have hpadded := Heap.Holds.append hheld (Alignment.padding 4 draft.blobs.bytes.length)
      rw [Assembly.itemAt, Assembly.blob, hread.blobs, Alignment.padded,
        Heap.blob_of_holds hpadded (size_lt_of_holds hheld hblobs)]
      rfl

theorem ReadsBack.mapM_itemAt {assembly : Assembly} (hread : draft.ReadsBack assembly)
    (h : draft.Kept passed) (hblobs : draft.blobs.size < Compressed.bound)
    {indexes : List HeapIndex} {items : List HeapItem} (hheld : List.Forall₂ draft.Held indexes items)
    (hzero : ∀ text, .text text ∈ items → 0 ∉ text.toUTF8.data.toList) :
    indexes.mapM assembly.itemAt = .ok items := by
  induction hheld with
  | nil => rfl
  | cons hfirst _ ih =>
    have hrest := ih fun text htext => hzero text (List.mem_cons_of_mem _ htext)
    have hitem := hread.itemAt h hblobs hfirst fun text htext => hzero text (by simp [htext])
    rw [List.mapM_cons, hitem, hrest]
    rfl

/-- Rows that hold what was passed for them do so when both are sorted. -/
theorem Kept.inTable (h : draft.Kept passed) (table : TableId) :
    List.Forall₂ draft.HeldRow ((draft.heapRows table).mergeSort keyLe)
      (PassedRow.inTable passed table) := by
  obtain ⟨hlength, hheld⟩ := List.forall₂_iff_zip.1 (h.rows table)
  have hfst := List.map_fst_zip (Nat.le_of_eq hlength)
  have hsnd := List.map_snd_zip (Nat.le_of_eq hlength.symm)
  generalize (draft.heapRows table).zip (passed.filter (·.table == table)) = pairs at hheld hfst hsnd
  have hkeys : ∀ a ∈ pairs, ∀ b ∈ pairs,
      keyLe a.1 b.1 = decide (a.2.key ≤ b.2.key) := by
    intro a ha b hb
    rw [keyLe, (hheld ha).key, (hheld hb).key]
  rw [PassedRow.inTable, ← hfst, ← hsnd,
    ← List.map_mergeSort (r := fun a b => keyLe a.1 b.1) fun _ _ _ _ => rfl,
    ← List.map_mergeSort (r := fun a b => keyLe a.1 b.1) hkeys, List.forall₂_map_left_iff,
    List.forall₂_map_right_iff, List.forall₂_same]
  exact fun pair hpair => hheld (List.mem_mergeSort.1 hpair)

/-- What a module is passed that is written with given steps. -/
def passedRows (name : String) (steps : List DraftStep) : List PassedRow :=
  PassedRow.ofStart name ++ DraftStep.passedAll false steps

/-- The indexes of a row resolve to what was passed for it. -/
theorem ReadsBack.items {assembly : Assembly} (hread : draft.ReadsBack assembly)
    (h : draft.Kept passed) (hassembly : draft.hasAssembly = true) (hzero : NulFree passed)
    (htexts : draft.texts.size < Compressed.bound) (hblobs : draft.blobs.size < Compressed.bound)
    {table : TableId} (hheap : table.HasHeapColumn) {index : Nat} {given : PassedRow}
    (hgiven : (PassedRow.inTable passed table)[index]? = some given) :
    ∃ cells row, assembly.cellsOf table (index + 1) = .ok cells ∧
      (draft.writtenRows table)[index]? = some row ∧ ReadsAs table.columns row cells ∧
      (heapIndexes table.columns cells).mapM assembly.itemAt = .ok given.items := by
  obtain ⟨hlength, hheld⟩ := List.forall₂_iff_get.1 (h.inTable table)
  obtain ⟨hindex, rfl⟩ := List.getElem?_eq_some_iff.1 hgiven
  have hrow := hheld index (hlength ▸ hindex) hindex
  -- The row that holds the indexes is written, and what is cut of it is none of them.
  have hrows := congrArg (·[index]?) (draft.map_rows hassembly hheap)
  simp only [List.getElem?_map, List.getElem?_eq_getElem (hlength ▸ hindex), Option.map_some,
    Option.map_eq_some_iff] at hrows
  obtain ⟨row, hplace, hindexes⟩ := hrows
  have hfits : ∀ place ∈ heapIndexes table.columns (row.map .number),
      place.Fits (TableRows.layout (draft.rows draft.addresses) draft.heapFlags) := by
    rw [hindexes]
    exact h.forall_fits htexts hblobs hrow.held
  have hwritten : (draft.writtenRows table)[index]? = some
      ((TableRows.layout (draft.rows draft.addresses) draft.heapFlags).cut table.columns row) := by
    rw [writtenRows, TableRows.cut, List.getElem?_map, hplace]
    rfl
  obtain ⟨cells, hcells, hread'⟩ := hread.cellsAt hwritten
  refine ⟨cells, _, hread', hwritten, hcells, ?_⟩
  rw [hcells.heapIndexes_eq, heapIndexes_cut hfits, hindexes]
  refine hread.mapM_itemAt h hblobs hrow.held fun text htext => ?_
  have hmem := List.mem_mergeSort.1 (List.getElem_mem hindex)
  exact hzero _ (List.mem_filter.1 hmem).1 text htext

/-- **Whatever steps write a module, and however its headers are read, as long as they are found
    as they were written: it opens just if it is still the main one of its assembly, and then every
    index of a heap in every row resolves to the text or the byte string that was passed for it,
    whatever was added before or after it.** -/
theorem resolves_passed [HeaderReader] {name : String} {steps : List DraftStep}
    {answers : List DraftAnswer} {draft : ModuleDraft}
    (hrun : DraftStep.runAll steps (start name true) = .ok (answers, draft))
    (hheaders : draft.HeadersRead) (hzero : NulFree (passedRows name steps))
    (htexts : draft.texts.size < Compressed.bound) (hblobs : draft.blobs.size < Compressed.bound)
    (hsection : draft.content.length < 0x80000000) :
    (steps.all DraftStep.keepsAssembly = false →
      Assembly.ofBytes draft.image = .error (.notAssembly .noAssemblyRow)) ∧
    (steps.all DraftStep.keepsAssembly = true →
      ∃ assembly, Assembly.ofBytes draft.image = .ok assembly ∧
        ∀ table : TableId, table.HasHeapColumn →
          assembly.rowCount table = (PassedRow.inTable (passedRows name steps) table).length ∧
          ∀ (index : Nat) (given : PassedRow),
            (PassedRow.inTable (passedRows name steps) table)[index]? = some given →
            ∃ cells, assembly.cellsOf table (index + 1) = .ok cells ∧
              (heapIndexes table.columns cells).mapM assembly.itemAt = .ok given.items ∧
              ∀ kind : RowKind, kind.table = table → ∃ record,
                assembly.row kind.Row (index + 1) = .ok record ∧ kind.cells record = cells) := by
  obtain ⟨hkept, hassembly⟩ := (kept_start name true).runAll hrun
  have hkept : draft.Kept (passedRows name steps) := hkept
  have hassembly : draft.hasAssembly = steps.all DraftStep.keepsAssembly := hassembly
  have hsize : Image.sectionAddress + draft.content.length < Image.addressBound := by
    rw [Image.sectionAddress, Image.addressBound]
    omega
  rw [draft.assemblyOfBytes_image hheaders]
  constructor
  · intro hall
    exact draft.ofImage_loaded_of_not hsize (hassembly.trans hall)
  · intro hall
    have hassembly := hassembly.trans hall
    obtain ⟨assembly, hopen, hread⟩ := draft.ofImage_loaded hsize hassembly
    refine ⟨assembly, hopen, fun table hheap => ⟨?_, fun index given hgiven => ?_⟩⟩
    · have hrows := congrArg List.length (draft.map_rows hassembly hheap)
      rw [List.length_map, List.length_map, (hkept.inTable table).length_eq] at hrows
      rw [hread.rowCount, length_writtenRows, hrows]
    · obtain ⟨cells, row, hcellsOf, hwritten, hcells, hitems⟩ :=
        hread.items hkept hassembly hzero htexts hblobs hheap hgiven
      refine ⟨cells, hcellsOf, hitems, ?_⟩
      rintro kind rfl
      obtain ⟨record, hrecord, -, hsame⟩ := hread.row hwritten
      exact ⟨record, hrecord, hsame.unique hcells⟩

/-- A class that is called as its module, with a field and an attribute. -/
def widgetSteps : List DraftStep :=
  [.publicClass "" "Widget" (Token.ofNat 0), .field 2 "Size" ⟨#[6, 8]⟩,
   .customAttribute (Token.ofRow .typeDef 2) (Token.ofRow .methodDef 1) ⟨#[1, 0, 0, 0]⟩]

/-- The texts that a module of that name starts with. -/
def widgetTexts : HeapDraft String :=
  (({} : HeapDraft String).pushed "Widget").pushed "<Module>"

/-- The module that these steps write. The name of the class is that of the module. -/
def widgetDraft : ModuleDraft where
  name := 1
  hasAssembly := true
  texts := widgetTexts.pushed "Size"
  blobs := (({} : HeapDraft ByteArray).pushed ⟨#[6, 8]⟩).pushed ⟨#[1, 0, 0, 0]⟩
  types := #[{ flags := 0, name := 8, nameSpace := 0, base := Token.ofNat 0 },
    { flags := classFlags, name := 1, nameSpace := 0, base := Token.ofNat 0 }]
  fields := #[{ owner := 2, name := 17, signature := 1 }]
  attributes :=
    #[{ parent := Token.ofRow .typeDef 2, constructor := Token.ofRow .methodDef 1, value := 4 }]

theorem start_widget : start "Widget" true =
    { name := 1, hasAssembly := true, texts := widgetTexts
      types := #[{ flags := 0, name := 8, nameSpace := 0, base := Token.ofNat 0 }] } := by
  have hname : ({} : HeapDraft String).add "Widget" = (1, HeapDraft.pushed {} "Widget") :=
    HeapDraft.add_of_new (by decide) (by simp)
  have hglobal : (({} : HeapDraft String).pushed "Widget").add "<Module>" = (8, widgetTexts) :=
    HeapDraft.add_of_new (by decide) (by simp [HeapDraft.getElem?_pushed])
  rw [start, hname]
  simp only [hglobal]

theorem runAll_widgetSteps : DraftStep.runAll widgetSteps (start "Widget" true) =
    .ok ([.row 2, .row 1, .none], widgetDraft) := by
  have hagain : widgetTexts.add "Widget" = (1, widgetTexts) :=
    HeapDraft.add_of_found (by decide) (by simp [widgetTexts, HeapDraft.getElem?_pushed])
  have hempty : widgetTexts.add "" = (0, widgetTexts) := HeapDraft.add_of_empty (by decide)
  have hfield : widgetTexts.add "Size" = (17, widgetTexts.pushed "Size") :=
    HeapDraft.add_of_new (by decide) (by simp [widgetTexts, HeapDraft.getElem?_pushed])
  have htype : ({} : HeapDraft ByteArray).add ⟨#[6, 8]⟩ = (1, HeapDraft.pushed {} ⟨#[6, 8]⟩) :=
    HeapDraft.add_of_new (by decide) (by simp)
  have hvalue : (({} : HeapDraft ByteArray).pushed ⟨#[6, 8]⟩).add ⟨#[1, 0, 0, 0]⟩ =
      (4, widgetDraft.blobs) :=
    HeapDraft.add_of_new (by decide) (by simp [HeapDraft.getElem?_pushed])
  rw [start_widget]
  refine DraftStep.runAll_of_run (Drafting.map_of_ok _ (addType_apply ..)) ?_
  simp only [hagain, hempty]
  refine DraftStep.runAll_of_run (Drafting.map_of_ok _ (addField_of_order (by simp))) ?_
  simp only [hfield, htype]
  refine DraftStep.runAll_of_run (Drafting.map_of_ok _ (addAttribute_apply ..)) ?_
  simp only [hvalue]
  rfl

theorem nulFree_widgetSteps : NulFree (passedRows "Widget" widgetSteps) := by
  have hrows : ∀ given ∈ passedRows "Widget" widgetSteps, ∀ item ∈ given.items, ∀ text,
      item = .text text → text ∈ ["Widget", "<Module>", "Size", ""] := by
    simp [passedRows, PassedRow.ofStart, widgetSteps, DraftStep.passedAll, DraftStep.passed]
  have hzero : ∀ text ∈ ["Widget", "<Module>", "Size", ""], 0 ∉ text.toUTF8.data.toList := by
    decide
  intro given hgiven text htext
  exact hzero text (hrows given hgiven _ htext text rfl)

theorem resolves_passed_widget :
    DraftStep.runAll widgetSteps (start "Widget" true) =
        .ok ([.row 2, .row 1, .none], widgetDraft) ∧
    ∃ assembly cells, Assembly.ofBytes widgetDraft.image = .ok assembly ∧
      assembly.cellsOf .field 1 = .ok cells ∧
      (heapIndexes TableId.field.columns cells).mapM assembly.itemAt =
        .ok [.text "Size", .bytes ⟨#[6, 8]⟩] := by
  refine ⟨runAll_widgetSteps, ?_⟩
  obtain ⟨-, hkept⟩ := resolves_passed runAll_widgetSteps
    (widgetDraft.headersRead_loadable (by decide +kernel)) nulFree_widgetSteps (by decide)
    (by decide) (by decide +kernel)
  obtain ⟨assembly, hopen, hrows⟩ := hkept rfl
  obtain ⟨-, hfields⟩ := hrows .field (.inl (by decide))
  obtain ⟨cells, hcells, hitems, -⟩ := hfields 0
    { table := .field, items := [.text "Size", .bytes ⟨#[6, 8]⟩] } (by
      simp [PassedRow.inTable, passedRows, PassedRow.ofStart, widgetSteps, DraftStep.passedAll,
        DraftStep.passed])
  exact ⟨assembly, cells, hopen, hcells, hitems⟩

end ModuleDraft

end ApiCensus
