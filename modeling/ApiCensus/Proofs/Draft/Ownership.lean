/-
  The members of every type of a module that was written.

  * `MemberKind.Row`, `Assembly.membersIn`: the members of a kind that a type declares.
  * `ModuleDraft.ReadsBack.membersOf`: the rows of a run are read, whichever run it is.
  * `ModuleDraft.ReadsBack.listed`, `ModuleDraft.ReadsBack.mapped`: the run of a type is found.
  * `ModuleDraft.membersIn_added`: so every type declares the members that were added to it, but
    for one number of members.
-/
import ApiCensus.Proofs.Draft.Headers
import ApiCensus.Proofs.Draft.Interning
import ApiCensus.Proofs.Draft.Runs

namespace ApiCensus

namespace MemberKind

/-- The kind of the rows of members. -/
def rowKind : MemberKind → RowKind
  | field => .field
  | method => .methodDef
  | property => .property
  | event => .event

/-- The column of a type that holds the number of its first member, if there is one. -/
def first? : MemberKind → Option (TypeDefRow → Nat)
  | field => some TypeDefRow.fieldList
  | method => some TypeDefRow.methodList
  | property | event => none

end MemberKind

/-- The members of a kind that a type declares. -/
def Assembly.membersIn (assembly : Assembly) (type : TypeDefRow) :
    (kind : MemberKind) → Except Fault (List kind.rowKind.Row)
  | .field => assembly.fieldsOf type
  | .method => assembly.methodsOf type
  | .property => assembly.propertiesOf type
  | .event => assembly.eventsOf type

/-- The number that a column holds of those that were written. -/
theorem ReadsAs.number_at {columns : List Column} {row : List Nat} {cells : List Cell}
    (h : ReadsAs columns row cells) {index value : Nat} {column : Column}
    (hcolumn : columns[index]? = some column) (plain : ∀ kind, column ≠ .coded kind)
    (hvalue : row[index]? = some value) : cells[index]? = some (.number value) := by
  induction h generalizing index with
  | nil => simp at hcolumn
  | number _ _ ih =>
    cases index with
    | zero =>
      rw [List.getElem?_cons_zero] at hvalue ⊢
      rw [Option.some.inj hvalue]
    | succ index => exact ih hcolumn hvalue
  | coded kind _ _ ih =>
    cases index with
    | zero => exact absurd (Option.some.inj hcolumn).symm (plain kind)
    | succ index => exact ih hcolumn hvalue

namespace ModuleDraft

variable {draft : ModuleDraft} {assembly : Assembly}

/-! ## Counts -/

theorem getElem?_typeRows (draft : ModuleDraft) {index : Nat} {type : TypeDraft}
    (h : draft.types.toList[index]? = some type) : draft.typeRows[index]? =
      some [type.flags, type.name, type.nameSpace, CodedIndex.encode .typeDefOrRef type.base,
        firstOf (draft.owners .field) (index + 1), firstOf (draft.owners .method) (index + 1)] := by
  rw [typeRows, List.getElem?_mapIdx, h]
  rfl

theorem length_rows_of_members (draft : ModuleDraft) (kind : MemberKind) :
    (draft.rows draft.addresses kind.rowKind.table).length = (draft.owners kind).length := by
  cases kind with
  | method =>
    have hzip : (draft.methods.toList.zip draft.addresses).length =
        draft.methods.toList.length := by
      rw [List.length_zip, length_addresses, Nat.min_self]
    exact (List.length_map _).trans (hzip.trans (List.length_map _).symm)
  | _ => exact (List.length_map _).trans (List.length_map _).symm

namespace ReadsBack

theorem rowCount_members (h : draft.ReadsBack assembly) (kind : MemberKind) :
    assembly.rowCount kind.rowKind.table = (draft.owners kind).length := by
  rw [h.rowCount, length_writtenRows, length_rows_of_members]

theorem rowCount_typeDef (h : draft.ReadsBack assembly) :
    assembly.rowCount .typeDef = draft.types.size := by
  rw [h.rowCount, length_writtenRows, rows, typeRows, List.length_mapIdx, Array.length_toList]

/-- A module has no table of entries. -/
theorem rowCount_entries (h : draft.ReadsBack assembly) {entries : TableId}
    (hentries : draft.rows draft.addresses entries = []) : assembly.rowCount entries = 0 := by
  rw [h.rowCount, length_writtenRows, hentries, List.length_nil]

theorem entryCount_members (h : draft.ReadsBack assembly) {entries : TableId}
    (hentries : draft.rows draft.addresses entries = []) (kind : MemberKind) :
    assembly.entryCount entries kind.rowKind.table = (draft.owners kind).length := by
  rw [Assembly.entryCount, h.rowCount_entries hentries, h.rowCount_members]
  rfl

/-! ## Members of a run -/

/-- The rows of a run are read, whichever run it is. -/
theorem membersOf (h : draft.ReadsBack assembly) (kind : MemberKind) {ε : Type} [MetadataRow ε]
    (hentries : draft.rows draft.addresses (MetadataRow.table ε) = []) (target : ε → Nat)
    (run : Run) :
    ∃ members, assembly.membersOf kind.rowKind.Row ε target
        (run.clamp ((draft.owners kind).length + 1)) = .ok members ∧
      members.map kind.rowKind.rid = (run.clamp ((draft.owners kind).length + 1)).toList := by
  have hnone := h.rowCount_entries hentries
  have hrows : ∀ index ∈ (run.clamp ((draft.owners kind).length + 1)).toList,
      ∃ member : kind.rowKind.Row,
        (if assembly.rowCount (MetadataRow.table ε) = 0 then assembly.row kind.rowKind.Row index
          else do
            let entry ← assembly.row ε index
            assembly.row kind.rowKind.Row (target entry)) = .ok member ∧
          index = kind.rowKind.rid member := by
    intro index hindex
    obtain ⟨hpos, hlt⟩ := mem_clamp (Nat.succ_pos _) hindex
    have hplace : index - 1 < (draft.writtenRows kind.rowKind.table).length := by
      rw [← h.rowCount, h.rowCount_members]
      omega
    obtain ⟨member, hmember, hrid, -⟩ := h.row (List.getElem?_eq_getElem hplace)
    rw [Nat.sub_add_cancel hpos] at hmember hrid
    rw [if_pos hnone]
    exact ⟨member, hmember, hrid.symm⟩
  obtain ⟨members, hmembers, hall⟩ := exists_mapM_eq_ok hrows
  refine ⟨members, hmembers, ?_⟩
  rw [← List.forall₂_map_right_iff, List.forall₂_eq_eq_eq] at hall
  exact hall.symm

/-! ## Where runs start -/

theorem columnBytes_row (layout : Layout) (table : TableId) :
    layout.columnBytes (.row table) = Layout.width (0xFFFF < layout.rowCount table) :=
  congrArg Layout.width (layout.isLarge_eq table).symm

/-- The rows of types hold what the columns keep of the numbers of the first members. -/
theorem typeDef (h : draft.ReadsBack assembly)
    (hcounts : ∀ table, (draft.rows draft.addresses table).length + 1 < LittleEndian.bound 4)
    {rid : Nat} (hpos : 1 ≤ rid) (hle : rid ≤ draft.types.size) :
    ∃ type, assembly.row TypeDefRow rid = .ok type ∧ type.rid = rid ∧
      ∀ kind : MemberKind, ∀ first ∈ kind.first?,
        first type = cutFirst (draft.owners kind) rid := by
  obtain ⟨index, rfl⟩ := Nat.exists_eq_add_of_le' hpos
  have hcut : ∀ kind, firstOf (draft.owners kind) (index + 1) % LittleEndian.bound
      ((TableRows.layout (draft.rows draft.addresses) draft.heapFlags).columnBytes
        (.row kind.rowKind.table)) = cutFirst (draft.owners kind) (index + 1) := by
    intro kind
    have hlength := hcounts kind.rowKind.table
    rw [length_rows_of_members] at hlength
    rw [columnBytes_row, TableRows.rowCount_layout, length_rows_of_members, firstOf_mod _ hlength]
  obtain ⟨row, hrow, hfields, hmethods⟩ : ∃ row,
      (draft.writtenRows (RowKind.table .typeDef))[index]? = some row ∧
        row[4]? = some (cutFirst (draft.owners .field) (index + 1)) ∧
        row[5]? = some (cutFirst (draft.owners .method) (index + 1)) := by
    rw [← hcut .field, ← hcut .method]
    have hwritten : (draft.writtenRows .typeDef)[index]? = (draft.typeRows[index]?).map
      ((TableRows.layout (draft.rows draft.addresses) draft.heapFlags).cut
        TableId.typeDef.columns) := List.getElem?_map
    rw [draft.getElem?_typeRows (List.getElem?_eq_getElem hle)] at hwritten
    exact ⟨_, hwritten, rfl, rfl⟩
  obtain ⟨type, htype, hrid, hcells⟩ := h.row hrow
  have hfield : (RowKind.cells .typeDef type)[4]? = some (.number _) :=
    hcells.number_at rfl (Column.row_ne_coded _) hfields
  have hmethod : (RowKind.cells .typeDef type)[5]? = some (.number _) :=
    hcells.number_at rfl (Column.row_ne_coded _) hmethods
  refine ⟨type, htype, hrid, ?_⟩
  rintro (_ | _ | _ | _) _ ⟨⟩
  · exact Cell.number.inj (Option.some.inj hfield)
  · exact Cell.number.inj (Option.some.inj hmethod)

/-- The run of a type that holds the number of its first member. -/
theorem runOfType (h : draft.ReadsBack assembly)
    (hcounts : ∀ table, (draft.rows draft.addresses table).length + 1 < LittleEndian.bound 4)
    {kind : MemberKind} {first : TypeDefRow → Nat} (hfirst : kind.first? = some first)
    {type : TypeDefRow} (hpos : 1 ≤ type.rid) (hle : type.rid ≤ draft.types.size)
    (htype : assembly.row TypeDefRow type.rid = .ok type) :
    assembly.runOfType type first ((draft.owners kind).length + 1) =
      .ok ((cutRun (draft.owners kind) draft.types.size type.rid).clamp
        ((draft.owners kind).length + 1)) := by
  obtain ⟨same, hsame, -, hstart⟩ := h.typeDef hcounts hpos hle
  obtain rfl := Except.ok.inj (htype.symm.trans hsame)
  rw [Assembly.runOfType, h.rowCount_typeDef, hstart kind first hfirst, cutRun]
  by_cases hlt : type.rid < draft.types.size
  · obtain ⟨next, hnext, -, hstop⟩ := h.typeDef hcounts (Nat.le_add_left 1 type.rid) hlt
    rw [if_pos hlt, if_pos hlt, hnext, ← hstop kind first hfirst]
    rfl
  · rw [if_neg hlt, if_neg hlt]
    rfl

/-- The members that are found where types hold the number of the first one. -/
theorem membersIn_of_first (h : draft.ReadsBack assembly)
    (hcounts : ∀ table, (draft.rows draft.addresses table).length + 1 < LittleEndian.bound 4)
    {kind : MemberKind} (hkind : kind.first?.isSome) {type : TypeDefRow} (hpos : 1 ≤ type.rid)
    (hle : type.rid ≤ draft.types.size)
    (htype : assembly.row TypeDefRow type.rid = .ok type) :
    ∃ members, assembly.membersIn type kind = .ok members ∧ members.map kind.rowKind.rid =
      ((cutRun (draft.owners kind) draft.types.size type.rid).clamp
        ((draft.owners kind).length + 1)).toList := by
  obtain ⟨first, hfirst⟩ := Option.isSome_iff_exists.1 hkind
  have hrun := h.runOfType hcounts hfirst hpos hle htype
  cases kind with
  | field =>
    obtain rfl := Option.some.inj hfirst
    obtain ⟨members, hmembers, hrids⟩ := h.membersOf .field rfl FieldPtrRow.field
      (cutRun (draft.owners .field) draft.types.size type.rid)
    have hcount : assembly.entryCount .fieldPtr .field = _ := h.entryCount_members rfl .field
    refine ⟨members, ?_, hrids⟩
    rw [Assembly.membersIn, Assembly.fieldsOf, hcount, hrun]
    exact hmembers
  | method =>
    obtain rfl := Option.some.inj hfirst
    obtain ⟨members, hmembers, hrids⟩ := h.membersOf .method rfl MethodPtrRow.method
      (cutRun (draft.owners .method) draft.types.size type.rid)
    have hcount : assembly.entryCount .methodPtr .methodDef = _ := h.entryCount_members rfl .method
    refine ⟨members, ?_, hrids⟩
    rw [Assembly.membersIn, Assembly.methodsOf, hcount, hrun]
    exact hmembers
  | property => cases hkind
  | event => cases hkind

theorem lt_columnBytes {layout : Layout} {table : TableId} {value : Nat}
    (hle : value ≤ layout.rowCount table) (hlt : value < LittleEndian.bound 4) :
    value < LittleEndian.bound (layout.columnBytes (.row table)) := by
  rw [columnBytes_row]
  exact Layout.lt_bound_width hle hlt

/-- Where the types that have members are listed, the list is read as it was written. -/
theorem starts (h : draft.ReadsBack assembly)
    (hcounts : ∀ table, (draft.rows draft.addresses table).length + 1 < LittleEndian.bound 4)
    {kind : MemberKind} (howners : ∀ owner ∈ draft.owners kind, owner ≤ draft.types.size)
    (list : RowKind) (start : list.Row → Nat × Nat)
    (hcolumns : list.table.columns = [.row .typeDef, .row kind.rowKind.table])
    (hrows : draft.rows draft.addresses list.table = runStarts none 1 (draft.owners kind))
    (hcells : ∀ record, list.cells record = [.number (start record).1, .number (start record).2]) :
    ∃ records, assembly.allRows list.Row = .ok records ∧
      records.map start = startsOf none 1 (draft.owners kind) := by
  have hwritten : draft.writtenRows list.table =
      (startsOf none 1 (draft.owners kind)).map fun start => [start.1, start.2] := by
    have htypes := hcounts .typeDef
    have hlength := hcounts kind.rowKind.table
    rw [length_rows_of_members] at hlength
    rw [rows, typeRows, List.length_mapIdx, Array.length_toList] at htypes
    rw [writtenRows, TableRows.cut, hrows, runStarts_eq, List.map_map]
    refine List.map_congr_left fun start hstart => ?_
    obtain ⟨howner, hfirst⟩ := mem_startsOf hstart
    have hle := howners _ howner
    refine Layout.cut_of_fits _ ?_ (by rw [hcolumns]; rfl)
    rw [hcolumns]
    intro cell hcell
    simp only [List.zip_cons_cons, List.zip_nil_right, List.mem_cons, List.not_mem_nil,
      or_false] at hcell
    rcases hcell with rfl | rfl
    · refine lt_columnBytes ?_ (by omega)
      rw [TableRows.rowCount_layout, rows, typeRows, List.length_mapIdx, Array.length_toList]
      exact hle
    · refine lt_columnBytes ?_ (by omega)
      rw [TableRows.rowCount_layout, length_rows_of_members]
      show start.2 ≤ _
      omega
  obtain ⟨records, hrecords, hall⟩ := h.allRows list
  refine ⟨records, hrecords, ?_⟩
  rw [hwritten, hcolumns, List.forall₂_map_left_iff] at hall
  have hstarts : List.Forall₂ (fun written record => written = start record)
      (startsOf none 1 (draft.owners kind)) records := by
    refine hall.imp fun written record hread => ?_
    rw [hcells] at hread
    have hsame := hread.unique
      (.number (Column.row_ne_coded _) (.number (Column.row_ne_coded _) .nil))
    simp only [List.cons.injEq, Cell.number.injEq, and_true] at hsame
    exact Prod.ext hsame.1.symm hsame.2.symm
  rw [← List.forall₂_map_right_iff, List.forall₂_eq_eq_eq] at hstarts
  exact hstarts.symm

/-- A type that is in the list has its members, and any other type has none. -/
theorem membersIn_of_runs (h : draft.ReadsBack assembly) {kind : MemberKind}
    (hsorted : (draft.owners kind).Pairwise (· ≤ ·)) {ε : Type} [MetadataRow ε]
    (hentries : draft.rows draft.addresses (MetadataRow.table ε) = []) (target : ε → Nat)
    {runs : Std.HashMap Nat Run}
    (hruns : runs = Assembly.runsOf
      (assembly.entryCount (MetadataRow.table ε) kind.rowKind.table + 1)
      (startsOf none 1 (draft.owners kind)) ∅) (type : Nat) :
    ∃ members, (match runs[type]? with
        | some run => assembly.membersOf kind.rowKind.Row ε target run
        | none => .ok []) = .ok members ∧
      members.map kind.rowKind.rid = rowsOwned type 1 (draft.owners kind) := by
  rw [hruns, h.entryCount_members hentries, Nat.add_comm _ 1,
    getElem?_runsOf hsorted (by simp)]
  by_cases hmem : type ∈ draft.owners kind
  · rw [if_pos ⟨hmem, nofun⟩, runFrom_one, Nat.add_comm 1]
    obtain ⟨members, hmembers, hrids⟩ := h.membersOf kind hentries target
      (runOwned (draft.owners kind) type)
    rw [clamp_runOwned, toList_runOwned hsorted] at hrids
    exact ⟨members, hmembers, hrids⟩
  · rw [if_neg fun hfound => hmem hfound.1, Std.HashMap.getElem?_empty]
    refine ⟨[], rfl, (rowsOwned_of_forall_ne ?_ 1).symm⟩
    rintro owner howner rfl
    exact hmem howner

end ReadsBack

/-! ## The members of every type -/

/-- The number behind the last member of a kind is lost: types hold the number of the first
    member, and `0xFFFF` members end before the last type. -/
def Displaces (draft : ModuleDraft) (kind : MemberKind) : Prop :=
  kind.first?.isSome ∧ Displaced (draft.owners kind) draft.types.size

theorem ReadsBack.membersIn (h : draft.ReadsBack assembly) (hindexed : assembly.Indexed)
    (hcounts : ∀ table, (draft.rows draft.addresses table).length + 1 < LittleEndian.bound 4)
    {kind : MemberKind} (hsorted : (draft.owners kind).Pairwise (· ≤ ·))
    (howners : ∀ owner ∈ draft.owners kind, owner ≤ draft.types.size)
    {type : TypeDefRow} (hpos : 1 ≤ type.rid) (hle : type.rid ≤ draft.types.size)
    (htype : assembly.row TypeDefRow type.rid = .ok type) :
    ∃ members, assembly.membersIn type kind = .ok members ∧
      (¬ draft.Displaces kind →
        members.map kind.rowKind.rid = rowsOwned type.rid 1 (draft.owners kind)) ∧
      (draft.Displaces kind → members.map kind.rowKind.rid =
        if type.rid = draft.types.size then List.range' 1 0xFFFF
        else if ∀ owner ∈ draft.owners kind, owner ≤ type.rid then []
        else rowsOwned type.rid 1 (draft.owners kind)) := by
  by_cases hfirst : kind.first?.isSome
  · obtain ⟨members, hmembers, hrids⟩ := h.membersIn_of_first hcounts hfirst hpos hle htype
    refine ⟨members, hmembers, ?_, ?_⟩
    · intro hkept
      rw [hrids, clamp_cutRun howners hle fun hlost => hkept ⟨hfirst, hlost⟩,
        toList_runOwned hsorted]
    · rintro ⟨-, hlost⟩
      rw [hrids]
      split_ifs with hlast hbehind
      · rw [hlast, clamp_cutRun_last hlost]
      · exact clamp_cutRun_owner hlost (Nat.lt_of_le_of_ne hle hlast) hbehind
      · rw [clamp_cutRun_before (Nat.lt_of_le_of_ne hle hlast) hbehind, toList_runOwned hsorted]
  · obtain ⟨properties, events, hproperties, hevents, hpropertyRuns, heventRuns⟩ :=
      Assembly.runs_of_indexed hindexed
    suffices hfound : ∃ members, assembly.membersIn type kind = .ok members ∧
        members.map kind.rowKind.rid = rowsOwned type.rid 1 (draft.owners kind) by
      obtain ⟨members, hmembers, hrids⟩ := hfound
      exact ⟨members, hmembers, fun _ => hrids, fun hlost => absurd hlost.1 hfirst⟩
    cases kind with
    | field | method => exact absurd rfl hfirst
    | property =>
      obtain ⟨records, hrecords, hstarts⟩ := h.starts hcounts howners .propertyMap
        (fun row => (row.parent, row.propertyList)) rfl rfl fun _ => rfl
      obtain rfl := Except.ok.inj (hproperties.symm.trans hrecords)
      rw [hstarts] at hpropertyRuns
      exact h.membersIn_of_runs hsorted rfl PropertyPtrRow.property hpropertyRuns type.rid
    | event =>
      obtain ⟨records, hrecords, hstarts⟩ := h.starts hcounts howners .eventMap
        (fun row => (row.parent, row.eventList)) rfl rfl fun _ => rfl
      obtain rfl := Except.ok.inj (hevents.symm.trans hrecords)
      rw [hstarts] at heventRuns
      exact h.membersIn_of_runs hsorted rfl EventPtrRow.event heventRuns type.rid

/-- **Whatever steps write a module, and however its headers are read, as long as they are found
    as they were written: every type declares just the members that were added to it, in the order
    and with the rows that were given for them. The exception are fields and methods
    whose number is `0xFFFF` and that end before the last type. There the number behind the last
    one does not fit its column, the type that they end in has none of its own, and the last type
    has all of them.** -/
theorem membersIn_added [HeaderReader] {name : String} {steps : List DraftStep}
    {answers : List DraftAnswer}
    (hrun : DraftStep.runAll steps (start name true) = .ok (answers, draft))
    (hheaders : draft.HeadersRead)
    (hassembly : steps.all DraftStep.keepsAssembly = true)
    (howners : ∀ step ∈ steps, ∀ kind, ∀ owner ∈ step.owner? kind, owner ≤ draft.types.size)
    (hsection : Image.sectionAddress + draft.content.length < Image.addressBound) :
    ∃ assembly, Assembly.ofBytes draft.image = .ok assembly ∧
      assembly.rowCount .typeDef = draft.types.size ∧
      ∀ rid, 1 ≤ rid → rid ≤ draft.types.size →
        ∃ type, assembly.row TypeDefRow rid = .ok type ∧
          ∀ kind, ∃ members, assembly.membersIn type kind = .ok members ∧
            (¬ draft.Displaces kind →
              members.map kind.rowKind.rid = DraftStep.rowsAdded kind rid steps answers) ∧
            (draft.Displaces kind → members.map kind.rowKind.rid =
              if rid = draft.types.size then List.range' 1 0xFFFF
              else if ∀ owner ∈ draft.owners kind, owner ≤ rid then []
              else DraftStep.rowsAdded kind rid steps answers) := by
  obtain ⟨-, hkeeps⟩ := (kept_start name true).runAll hrun
  obtain ⟨assembly, hopen, hread⟩ := draft.ofImage_loaded hsection (hkeeps.trans hassembly)
  rw [draft.assemblyOfBytes_image hheaders]
  have hcounts : ∀ table,
      (draft.rows draft.addresses table).length + 1 < LittleEndian.bound 4 := by
    intro table
    have hle := draft.length_rows_le table
    rw [Image.sectionAddress, Image.addressBound] at hsection
    rw [show LittleEndian.bound 4 = 0x100000000 from rfl]
    omega
  refine ⟨assembly, hopen, hread.rowCount_typeDef, fun rid hpos hle => ?_⟩
  obtain ⟨type, htype, rfl, -⟩ := hread.typeDef hcounts hpos hle
  refine ⟨type, htype, fun kind => ?_⟩
  have hnone : (start name true).owners kind = [] := by cases kind <;> rfl
  obtain ⟨hsorted, hfrom, hadded⟩ := owners_runAll kind hrun (hnone ▸ List.Pairwise.nil)
  rw [hnone] at hfrom hadded
  have hexist : ∀ owner ∈ draft.owners kind, owner ≤ draft.types.size := by
    intro owner howner
    rw [hfrom] at howner
    obtain ⟨step, hstep, hsome⟩ := List.mem_filterMap.1 howner
    exact howners step hstep kind owner hsome
  rw [hadded, ← List.nil_append (steps.filterMap _), ← hfrom]
  exact hread.membersIn (Assembly.indexed_of_ofImage hopen) hcounts hsorted hexist hpos hle htype

/-- The same field is added again and again, behind those of the same type and of earlier ones. -/
theorem runAll_replicate_field (draft : ModuleDraft) (member : MemberDraft) {name : String}
    {signature : ByteArray} (hname : draft.texts.add name = (member.name, draft.texts))
    (hsignature : draft.blobs.add signature = (member.signature, draft.blobs))
    (hlast : ∀ last ∈ draft.fields.back?.map MemberDraft.owner, last ≤ member.owner)
    (count : Nat) :
    ∃ answers, DraftStep.runAll (List.replicate count (.field member.owner name signature)) draft =
      .ok (answers, { draft with fields := draft.fields ++ Array.replicate count member }) := by
  induction count generalizing draft with
  | zero =>
    refine ⟨[], ?_⟩
    rw [Array.replicate_zero, Array.append_empty]
    rfl
  | succ count ih =>
    have hstep : addField member.owner name signature draft = .ok _ := addField_of_order hlast
    rw [hname, hsignature] at hstep
    obtain ⟨answers, hrest⟩ :=
      ih { draft with fields := draft.fields.push member } hname hsignature (by simp)
    have hfields : draft.fields ++ Array.replicate (count + 1) member =
        draft.fields.push member ++ Array.replicate count member := by
      apply Array.toList_inj.1
      simp [List.replicate_succ]
    rw [hfields]
    exact ⟨_, DraftStep.runAll_of_run (Drafting.map_of_ok _ hstep) hrest⟩

/-- Two classes, of which the first one gets `0xFFFF` fields. -/
def crowdedSteps : List DraftStep :=
  .publicClass "" "E" (Token.ofNat 0) :: .publicClass "" "Z" (Token.ofNat 0) ::
    List.replicate 0xFFFF (.field 2 "value__" ⟨#[6, 8]⟩)

/-- The texts that this module has before its fields. -/
def crowdedTexts : HeapDraft String :=
  (((({} : HeapDraft String).pushed "m").pushed "<Module>").pushed "E").pushed "Z"

/-- Every field of the module. -/
def crowdedField : MemberDraft where
  owner := 2
  name := 16
  signature := 1

/-- The module that these steps write. -/
def crowdedDraft : ModuleDraft where
  name := 1
  hasAssembly := true
  texts := crowdedTexts.pushed "value__"
  blobs := ({} : HeapDraft ByteArray).pushed ⟨#[6, 8]⟩
  types := #[{ flags := 0, name := 3, nameSpace := 0, base := Token.ofNat 0 },
    { flags := classFlags, name := 12, nameSpace := 0, base := Token.ofNat 0 },
    { flags := classFlags, name := 14, nameSpace := 0, base := Token.ofNat 0 }]
  fields := #[crowdedField] ++ Array.replicate 0xFFFE crowdedField

theorem start_crowded : start "m" true =
    { name := 1, hasAssembly := true, texts := (HeapDraft.pushed {} "m").pushed "<Module>"
      types := #[{ flags := 0, name := 3, nameSpace := 0, base := Token.ofNat 0 }] } := by
  have hname : ({} : HeapDraft String).add "m" = (1, HeapDraft.pushed {} "m") :=
    HeapDraft.add_of_new (by decide) (by simp)
  have hglobal : (({} : HeapDraft String).pushed "m").add "<Module>" = (3, HeapDraft.pushed _ _) :=
    HeapDraft.add_of_new (by decide) (by simp [HeapDraft.getElem?_pushed])
  rw [start, hname]
  simp only [hglobal]

theorem runAll_crowdedSteps : ∃ answers,
    DraftStep.runAll crowdedSteps (start "m" true) = .ok (answers, crowdedDraft) := by
  have hempty : ∀ {texts : HeapDraft String}, texts.add "" = (0, texts) :=
    HeapDraft.add_of_empty (by decide)
  have hfirst : ((({} : HeapDraft String).pushed "m").pushed "<Module>").add "E" =
      (12, HeapDraft.pushed _ _) :=
    HeapDraft.add_of_new (by decide) (by simp [HeapDraft.getElem?_pushed])
  have hlast : (((({} : HeapDraft String).pushed "m").pushed "<Module>").pushed "E").add "Z" =
      (14, crowdedTexts) :=
    HeapDraft.add_of_new (by decide) (by simp [HeapDraft.getElem?_pushed])
  have hname : crowdedTexts.add "value__" = (16, crowdedTexts.pushed "value__") :=
    HeapDraft.add_of_new (by decide) (by simp [crowdedTexts, HeapDraft.getElem?_pushed])
  have hnameAgain : (crowdedTexts.pushed "value__").add "value__" =
      (16, crowdedTexts.pushed "value__") :=
    HeapDraft.add_of_found (by decide) (by simp [HeapDraft.getElem?_pushed]; rfl)
  have htype : ({} : HeapDraft ByteArray).add ⟨#[6, 8]⟩ = (1, HeapDraft.pushed {} ⟨#[6, 8]⟩) :=
    HeapDraft.add_of_new (by decide) (by simp)
  have htypeAgain : (HeapDraft.pushed {} ⟨#[6, 8]⟩ : HeapDraft ByteArray).add ⟨#[6, 8]⟩ =
      (1, HeapDraft.pushed {} ⟨#[6, 8]⟩) :=
    HeapDraft.add_of_found (by decide) (by simp [HeapDraft.getElem?_pushed])
  -- The first field brings its name and its type, which all others find.
  have hsteps : crowdedSteps = .publicClass "" "E" (Token.ofNat 0) ::
      .publicClass "" "Z" (Token.ofNat 0) :: .field 2 "value__" ⟨#[6, 8]⟩ ::
        List.replicate 0xFFFE (.field 2 "value__" ⟨#[6, 8]⟩) :=
    congrArg _ (congrArg _ List.replicate_succ)
  obtain ⟨answers, hrest⟩ := runAll_replicate_field
    { crowdedDraft with fields := #[crowdedField] } crowdedField hnameAgain htypeAgain (by simp)
    0xFFFE
  refine ⟨.row 2 :: .row 3 :: .row 1 :: answers, ?_⟩
  rw [start_crowded, hsteps]
  refine DraftStep.runAll_of_run (Drafting.map_of_ok _ (addType_apply ..)) ?_
  simp only [hfirst, hempty]
  refine DraftStep.runAll_of_run (Drafting.map_of_ok _ (addType_apply ..)) ?_
  simp only [hlast, hempty]
  refine DraftStep.runAll_of_run (Drafting.map_of_ok _ (addField_of_order (by simp))) ?_
  simp only [hname, htype]
  exact hrest

theorem owners_crowdedSteps : crowdedSteps.filterMap (DraftStep.owner? .field) =
    List.replicate 0xFFFF 2 := by
  rw [crowdedSteps, List.filterMap_cons, List.filterMap_cons]
  exact List.filterMap_replicate_of_some rfl

theorem le_of_mem_crowdedSteps {step : DraftStep} (hstep : step ∈ crowdedSteps)
    (kind : MemberKind) : ∀ owner ∈ step.owner? kind, owner ≤ crowdedDraft.types.size := by
  intro owner howner
  rcases List.mem_cons.1 hstep with rfl | hstep
  · cases howner
  rcases List.mem_cons.1 hstep with rfl | hstep
  · cases howner
  obtain rfl := List.eq_of_mem_replicate hstep
  cases kind with
  | field =>
    obtain rfl := Option.some.inj howner
    exact Nat.le_succ 2
  | _ => cases howner

theorem length_rows_crowded (table : TableId) :
    (crowdedDraft.rows crowdedDraft.addresses table).length ≤ 0xFFFF := by
  have hfields : crowdedDraft.fields.size = 0xFFFF := by
    rw [crowdedDraft, Array.size_append, Array.size_replicate]
    rfl
  cases table
  case field =>
    refine Nat.le_of_eq ?_
    rw [rows, List.length_map, Array.length_toList, hfields]
  case interfaceImpl | customAttribute | methodSemantics | methodImpl | nestedClass =>
    rw [rows, length_sortedBy, List.length_map]
    exact Nat.zero_le _
  all_goals exact Nat.le_of_ble_eq_true rfl

theorem length_content_crowded :
    Image.sectionAddress + crowdedDraft.content.length < Image.addressBound := by
  have hle := crowdedDraft.length_content_le rfl length_rows_crowded
  have htexts : crowdedDraft.texts.bytes.length = 24 := by decide
  have hblobs : crowdedDraft.blobs.bytes.length = 4 := by decide
  rw [Image.sectionAddress, Image.addressBound]
  omega

theorem membersIn_added_crowded : ∃ answers assembly first last members,
    DraftStep.runAll crowdedSteps (start "m" true) = .ok (answers, crowdedDraft) ∧
      Assembly.ofBytes crowdedDraft.image = .ok assembly ∧
      DraftStep.rowsAdded .field 2 crowdedSteps answers = List.range' 1 0xFFFF ∧
      assembly.row TypeDefRow 2 = .ok first ∧ assembly.fieldsOf first = .ok [] ∧
      DraftStep.rowsAdded .field 3 crowdedSteps answers = [] ∧
      assembly.row TypeDefRow 3 = .ok last ∧ assembly.fieldsOf last = .ok members ∧
      members.map FieldRow.rid = List.range' 1 0xFFFF := by
  obtain ⟨answers, hrun⟩ := runAll_crowdedSteps
  have hassembly : crowdedSteps.all DraftStep.keepsAssembly = true := by
    rw [crowdedSteps, List.all_cons, List.all_cons, List.all_replicate]
    rfl
  obtain ⟨hsorted, hfields, hadded⟩ := owners_runAll .field hrun List.Pairwise.nil
  rw [owners_crowdedSteps] at hfields hadded
  have howners : crowdedDraft.owners .field = List.replicate 0xFFFF 2 := hfields
  rw [howners] at hsorted
  have hsame : ∀ owner ∈ crowdedDraft.owners .field, owner = 2 := by
    rw [howners]
    exact fun _ => List.eq_of_mem_replicate
  have hlost : crowdedDraft.Displaces .field := by
    refine ⟨rfl, ?_, fun owner hmem => ?_⟩
    · rw [howners, List.length_replicate]
    · rw [hsame owner hmem]
      exact Nat.lt_succ_self 2
  obtain ⟨assembly, hopen, -, htypes⟩ := membersIn_added hrun
    (crowdedDraft.headersRead_loadable length_content_crowded) hassembly
    (fun step hstep => le_of_mem_crowdedSteps hstep) length_content_crowded
  obtain ⟨first, hfirst, hmembers⟩ := htypes 2 (by decide) (by decide)
  obtain ⟨empty, hempty, -, hnone⟩ := hmembers .field
  obtain ⟨last, hlast, hmembers⟩ := htypes 3 (by decide) (by decide)
  obtain ⟨members, hall, -, hrids⟩ := hmembers .field
  have hbehind := (hnone hlost).trans ((if_neg (by decide)).trans
    (if_pos fun owner hmem => Nat.le_of_eq (hsame owner hmem)))
  obtain rfl := List.map_eq_nil_iff.1 hbehind
  refine ⟨answers, assembly, first, last, members, hrun, hopen, ?_, hfirst, hempty, ?_, hlast, hall,
    (hrids hlost).trans (if_pos (by decide))⟩
  · rw [hadded, rowsOwned_eq_range' hsorted, List.count_replicate_self, List.countP_replicate]
    rfl
  · rw [hadded, rowsOwned_eq_range' hsorted, List.count_replicate, List.countP_replicate]
    rfl

end ModuleDraft

end ApiCensus
