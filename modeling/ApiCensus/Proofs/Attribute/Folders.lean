/-
  Enums that are looked up in folders, one after the other.

  * `EnumLookup.answers`, `EnumLookup.alone`: the answers to a sequence of questions, and the
    answer to a question that is the first one.
  * `EnumLookup.Remembers`: what is remembered after assemblies were asked for, which is what the
    first spelling of each of them has found; `remembers_step` keeps it up.
  * `EnumLookup.answers_ofFolders`: every question is answered in the spelling in which its
    assembly was asked for first.
  * `EnumLookup.answers_missed`: so an enum is missed if its assembly was asked for before in a
    spelling that no file has; `EnumLookup.answers_colors` is such an enum.
-/
import ApiCensus.Attribute.EnumLookup
import ApiCensus.Proofs.Assembly.Owners
import ApiCensus.Proofs.Draft.Headers
import ApiCensus.Proofs.Metadata.Heap

namespace ApiCensus

namespace EnumLookup

/-! ## Spellings -/

/-- The name of an assembly without a regard to case. -/
def folded (assembly : String) : String :=
  assembly.map Char.toLower

/-- The first of several spellings that differ from a given one in case only, which is given if
    there is none among them. -/
def firstSpelling (asked : List String) (assembly : String) : String :=
  (asked.find? fun other => folded other == folded assembly).getD assembly

/-- The question with the assembly in its first spelling. -/
def respelled (names : List EnumName) (name : EnumName) : EnumName :=
  { name with assembly := firstSpelling (names.map EnumName.assembly) name.assembly }

theorem find?_folded_self (asked : List String) (assembly : String) :
    (asked ++ [assembly]).find? (fun other => folded other == folded assembly) =
      some (firstSpelling asked assembly) := by
  rw [List.find?_append, firstSpelling]
  cases asked.find? fun other => folded other == folded assembly <;> simp

/-- Later questions do not change how an assembly was spelled first. -/
theorem firstSpelling_append (asked later : List String) (assembly : String) :
    firstSpelling (asked ++ assembly :: later) assembly = firstSpelling asked assembly := by
  rw [List.append_cons, firstSpelling, List.find?_append, find?_folded_self]
  rfl

/-- The first spelling differs in case only. -/
theorem firstSpelling_cases (asked : List String) (assembly : String) :
    folded (firstSpelling asked assembly) = folded assembly ∧
      (firstSpelling asked assembly = assembly ∨ firstSpelling asked assembly ∈ asked) := by
  rw [firstSpelling]
  cases hfound : asked.find? fun other => folded other == folded assembly with
  | none => exact ⟨rfl, Or.inl rfl⟩
  | some found =>
    have hfolded := List.find?_some hfound
    exact ⟨eq_of_beq hfolded, Or.inr (List.mem_of_find?_eq_some hfound)⟩

/-- A question stays as it is where its assembly has one spelling only. -/
theorem respelled_eq {names : List EnumName} {name : EnumName}
    (h : ∀ other ∈ names, folded other.assembly = folded name.assembly →
      other.assembly = name.assembly) : respelled names name = name := by
  obtain ⟨hfolded, hsame | hasked⟩ :=
    firstSpelling_cases (names.map EnumName.assembly) name.assembly
  · rw [respelled, hsame]
  · obtain ⟨other, hother, hspelling⟩ := List.mem_map.1 hasked
    rw [← hspelling] at hfolded
    rw [respelled, ← hspelling, h other hother hfolded]

/-- Behind a question in another spelling, a question is asked in that spelling. -/
theorem respelled_after {name : EnumName} {assembly : String}
    (h : folded assembly = folded name.assembly) :
    respelled [{ name with assembly }, name] name = { name with assembly } := by
  simp [respelled, firstSpelling, h]

section Folders

/-! ## What is remembered -/

variable [HeaderReader] (folders : List Folder)

/-- The answers to questions one after the other; before the first one nothing is remembered. -/
def answers (names : List EnumName) : List (Option Primitive) :=
  ((names.mapM (ofFolders folders)).run ∅).1

/-- The answer to a question when nothing is remembered. -/
def alone (name : EnumName) : Option Primitive :=
  ((ofFolders folders name).run ∅).1

/-- What is remembered after assemblies were asked for: what the first spelling of each has
    found. -/
def Remembers (asked : List String) (cache : EnumCache) : Prop :=
  ∀ key, cache[key]? = (asked.find? fun other => folded other == key).map (load folders)

variable {folders} {asked : List String} {cache : EnumCache}

theorem remembers_start : Remembers folders [] ∅ :=
  fun _ => Std.HashMap.getElem?_empty

theorem indexOf_apply (assembly : String) (cache : EnumCache) :
    indexOf folders assembly cache = match cache[folded assembly]? with
      | some index => (index, cache)
      | .none => (load folders assembly, cache.insert (folded assembly) (load folders assembly)) := by
  unfold indexOf
  show (match cache[folded assembly]? with
    | some index => pure index
    | .none => _ : StateM EnumCache (Option EnumIndex)) cache = _
  cases cache[folded assembly]? <;> rfl

/-- A question is answered in its first spelling, and this is what is remembered. -/
theorem remembers_step (h : Remembers folders asked cache) (assembly : String) :
    ∃ cache', indexOf folders assembly cache =
        (load folders (firstSpelling asked assembly), cache') ∧
      Remembers folders (asked ++ [assembly]) cache' := by
  have hknown := h (folded assembly)
  cases hfirst : asked.find? fun other => folded other == folded assembly with
  | some first =>
    rw [hfirst, Option.map_some] at hknown
    have hspelling : firstSpelling asked assembly = first := by rw [firstSpelling, hfirst]; rfl
    rw [hspelling]
    refine ⟨cache, by rw [indexOf_apply, hknown], fun key => ?_⟩
    rw [h key, List.find?_append]
    by_cases hkey : folded assembly = key
    · rw [← hkey, hfirst]
      rfl
    · cases asked.find? fun other => folded other == key <;> simp [hkey]
  | none =>
    rw [hfirst, Option.map_none] at hknown
    have hspelling : firstSpelling asked assembly = assembly := by
      rw [firstSpelling, hfirst]
      rfl
    rw [hspelling]
    refine ⟨_, by rw [indexOf_apply, hknown], fun key => ?_⟩
    rw [Std.HashMap.getElem?_insert, List.find?_append]
    by_cases hkey : folded assembly = key
    · rw [← hkey, hfirst]
      simp
    · rw [if_neg (by simp [hkey]), h key]
      cases asked.find? fun other => folded other == key <;> simp [hkey]

/-! ## A sequence of questions -/

/-- What an assembly in a given spelling says about an enum. -/
def said (folders : List Folder) (assembly : String) (name : EnumName) : Option Primitive :=
  (load folders assembly).bind fun index => index[name.fullName]?

theorem ofFolders_apply {name : EnumName} {index : Option EnumIndex} {cache' : EnumCache}
    (h : indexOf folders name.assembly cache = (index, cache')) :
    ofFolders folders name cache = (index.bind fun index => index[name.fullName]?, cache') := by
  show ((indexOf folders name.assembly cache).1.bind fun index => index[name.fullName]?,
    (indexOf folders name.assembly cache).2) = _
  rw [h]

theorem alone_eq (name : EnumName) : alone folders name = said folders name.assembly name := by
  have hstart : Remembers folders [] ∅ := remembers_start
  obtain ⟨cache, hindex, -⟩ := remembers_step hstart name.assembly
  exact congrArg Prod.fst (ofFolders_apply hindex)

/-- Questions one after the other, each of which finds what is remembered of those before. -/
theorem mapM_ofFolders (h : Remembers folders asked cache) (names : List EnumName) :
    ∃ cache', names.mapM (ofFolders folders) cache =
      (names.map fun name =>
        said folders (firstSpelling (asked ++ names.map EnumName.assembly) name.assembly) name,
        cache') := by
  induction names generalizing asked cache with
  | nil => exact ⟨cache, rfl⟩
  | cons name rest ih =>
    obtain ⟨middle, hindex, hmiddle⟩ := remembers_step h name.assembly
    obtain ⟨stop, hrest⟩ := ih hmiddle
    have hfirst := ofFolders_apply hindex
    have hrun : (name :: rest).mapM (ofFolders folders) cache =
        ((ofFolders folders name cache).1 ::
            (rest.mapM (ofFolders folders) (ofFolders folders name cache).2).1,
          (rest.mapM (ofFolders folders) (ofFolders folders name cache).2).2) := by
      rw [List.mapM_cons]
      rfl
    refine ⟨stop, ?_⟩
    rw [hrun, hfirst, hrest, List.map_cons, List.map_cons, firstSpelling_append,
      List.append_assoc]
    rfl

theorem answers_eq (names : List EnumName) :
    answers folders names = names.map fun name => alone folders (respelled names name) := by
  have hstart : Remembers folders [] ∅ := remembers_start
  obtain ⟨cache, hrun⟩ := mapM_ofFolders hstart names
  refine (congrArg Prod.fst hrun).trans (List.map_congr_left fun name _ => ?_)
  rw [alone_eq, List.nil_append]
  rfl

/-- **Every question is answered as if its assembly were spelled as it was spelled first.** So the
    earlier questions make no difference where each assembly is spelled in one way, and for any
    sequence of questions just if the folders say the same for every spelling of an assembly. -/
theorem answers_ofFolders (folders : List Folder) :
    (∀ names, answers folders names =
      names.map fun name => alone folders (respelled names name)) ∧
    (∀ names : List EnumName,
      (∀ name ∈ names, ∀ other ∈ names, folded other.assembly = folded name.assembly →
        other.assembly = name.assembly) →
      answers folders names = names.map (alone folders)) ∧
    ((∀ names, answers folders names = names.map (alone folders)) ↔
      ∀ (name : EnumName) (assembly : String), folded assembly = folded name.assembly →
        alone folders { name with assembly } = alone folders name) := by
  refine ⟨answers_eq, fun names h => ?_, fun h name assembly hfolded => ?_, fun h names => ?_⟩
  · rw [answers_eq]
    exact List.map_congr_left fun name hname => by rw [respelled_eq (h name hname)]
  · have hanswers := h [{ name with assembly }, name]
    rw [answers_eq] at hanswers
    simp only [List.map_cons, List.map_nil, respelled_after hfolded] at hanswers
    exact (List.cons.inj (List.cons.inj hanswers).2).1
  · rw [answers_eq]
    exact List.map_congr_left fun name _ => h name _ (firstSpelling_cases _ _).1

/-- An assembly that was not found in another spelling is not found any more. -/
theorem answers_missed (name : EnumName) (assembly : String) {index : EnumIndex}
    {type : Primitive} (hfolded : folded assembly = folded name.assembly)
    (hmissed : load folders assembly = .none) (hfound : load folders name.assembly = some index)
    (htype : index[name.fullName]? = some type) :
    answers folders [{ name with assembly }, name] = [.none, .none] ∧
      [{ name with assembly }, name].map (alone folders) = [.none, some type] := by
  have hfirst : respelled [{ name with assembly }, name] { name with assembly }
      = { name with assembly } := by
    simp [respelled, firstSpelling]
  have hsecond := respelled_after hfolded
  have hother : alone folders { name with assembly } = .none := by
    rw [alone_eq, said, hmissed]
    rfl
  have hname : alone folders name = some type := by
    rw [alone_eq, said, hfound]
    exact htype
  rw [answers_eq]
  simp only [List.map_cons, List.map_nil, hfirst, hsecond, hother, hname, and_self]

end Folders

end EnumLookup

/-! ## An enum that is missed -/

namespace ModuleDraft

/-- A module with an enum of the type of its one field. -/
def colorsDraft : ModuleDraft where
  name := 0
  hasAssembly := true
  texts := (({} : HeapDraft String).pushed "Color").pushed Assembly.valueField
  blobs := ({} : HeapDraft ByteArray).pushed ⟨#[6, 7]⟩
  types := #[{ flags := 0, name := 1, nameSpace := 0, base := Token.ofNat 0 }]
  fields := #[{ owner := 1, name := 7, signature := 1 }]

variable {assembly : Assembly} (h : colorsDraft.ReadsBack assembly)

include h

theorem typeRow_colors : ∃ type, assembly.row TypeDefRow 1 = .ok type ∧ type.rid = 1 ∧
    type.name = 1 ∧ type.nameSpace = 0 ∧ type.fieldList = 1 := by
  have htable := h.table .typeDef
  rw [h.layout, h.bytes _ (by decide)] at htable
  have hrow : assembly.row TypeDefRow 1 = _ := congrArg (fun table => table.get 1) htable
  have hparts : (assembly.row TypeDefRow 1).toOption.map (fun type =>
      (type.rid, type.name, type.nameSpace, type.fieldList)) = some (1, 1, 0, 1) := by
    rw [hrow]
    decide
  obtain ⟨type, htype, hparts⟩ := exists_ok_of_map hparts
  exact ⟨type, htype, by simpa using hparts⟩

theorem fieldRow_colors : ∃ field, assembly.row FieldRow 1 = .ok field ∧
    field.name = 7 ∧ field.signature = 1 := by
  have htable := h.table .field
  rw [h.layout, h.bytes _ (by decide)] at htable
  have hrow : assembly.row FieldRow 1 = _ := congrArg (fun table => table.get 1) htable
  have hparts : (assembly.row FieldRow 1).toOption.map (fun field =>
      (field.name, field.signature)) = some (7, 1) := by
    rw [hrow]
    decide
  obtain ⟨field, hfield, hparts⟩ := exists_ok_of_map hparts
  exact ⟨field, hfield, by simpa using hparts⟩

theorem texts_colors : assembly.text 0 = .ok "" ∧ assembly.text 1 = .ok "Color" ∧
    assembly.text 7 = .ok Assembly.valueField := by
  simp only [Assembly.text, h.strings]
  exact ⟨eq_ok_of_toOption (by decide +kernel), eq_ok_of_toOption (by decide +kernel),
    eq_ok_of_toOption (by decide +kernel)⟩

theorem blob_colors : assembly.blob 1 = .ok ⟨#[6, 7]⟩ := by
  rw [Assembly.blob, h.blobs]
  exact eq_ok_of_toOption (by decide)

theorem fieldsOf_colors {type : TypeDefRow} (hrid : type.rid = 1) (hfields : type.fieldList = 1)
    {field : FieldRow} (hrow : assembly.row FieldRow 1 = .ok field) :
    assembly.fieldsOf type = .ok [field] := by
  have hcounts : assembly.rowCount .typeDef = 1 ∧ assembly.rowCount .fieldPtr = 0 ∧
      assembly.rowCount .field = 1 := by
    simp only [h.rowCount]
    decide
  obtain ⟨htypes, hentries, hmembers⟩ := hcounts
  have hcount : assembly.entryCount .fieldPtr .field = 1 := by
    rw [Assembly.entryCount, hentries, hmembers]
    rfl
  have hrun : assembly.runOfType type (·.fieldList) 2 = .ok { start := 1, stop := 2 } := by
    rw [Assembly.runOfType, hrid, htypes, if_neg (by decide), hfields]
    rfl
  have hentry : assembly.rowCount (MetadataRow.table FieldPtrRow) = 0 := hentries
  rw [Assembly.fieldsOf, hcount, hrun, except_ok_bind, Assembly.membersOf]
  simp only [hentry, if_true]
  show ([1].mapM fun index => assembly.row FieldRow index) = _
  rw [List.mapM_cons, hrow]
  rfl

theorem underlyingType_colors {type : TypeDefRow} (hrid : type.rid = 1)
    (hfields : type.fieldList = 1) : assembly.underlyingType type = .ok (some .uInt16) := by
  obtain ⟨field, hrow, hname, hsignature⟩ := fieldRow_colors h
  obtain ⟨-, -, hvalue⟩ := texts_colors h
  rw [Assembly.underlyingType, fieldsOf_colors h hrid hfields hrow, except_ok_bind,
    Assembly.valueType, hname, hvalue, except_ok_bind, if_pos rfl, hsignature, blob_colors h]
  rfl

theorem enumIndex_colors (hindexed : assembly.Indexed) :
    assembly.enumIndex = .ok ((∅ : EnumIndex).insert "Color" .uInt16) := by
  obtain ⟨type, htype, hrid, hname, hspace, hfields⟩ := typeRow_colors h
  obtain ⟨hempty, hcolor, -⟩ := texts_colors h
  have hcount : (assembly.table TypeDefRow).count = 1 := congrArg Table.count (h.table .typeDef)
  have hrows : (assembly.table TypeDefRow).rows = [.ok type] := by
    rw [Table.rows, hcount]
    exact congrArg (fun row => [row]) htype
  have hnested : assembly.allRows NestedClassRow = .ok [] := by
    obtain ⟨rows, hrows, hall⟩ := h.allRows .nestedClass
    have hnone : colorsDraft.writtenRows RowKind.nestedClass.table = [] := by decide +kernel
    rw [hnone] at hall
    obtain rfl := List.forall₂_nil_left_iff.1 hall
    exact hrows
  have hreflection : assembly.reflectionName type = .ok (some "Color") := by
    rw [Assembly.reflectionName, hname, hcolor, except_ok_bind,
      Assembly.declaringType?_eq_none hindexed hnested]
    simp only [Assembly.definedName, hspace, hname, hempty, hcolor, except_ok_bind]
    rfl
  rw [Assembly.enumIndex, hrows]
  show (Assembly.indexType assembly ∅ (.ok type) >>= fun index => pure index) = _
  rw [Assembly.indexType, except_ok_bind, underlyingType_colors h hrid hfields, except_ok_bind]
  dsimp only
  rw [hreflection, except_ok_bind]
  rfl

end ModuleDraft

/-- A file in the folder itself is found by its name. -/
theorem Folder.file?_plain {folder : Folder} {path : String} (hroot : path.startsWith "/" = false)
    (hparts : Folder.parts path = [path]) (hplain : path ∉ ["", ".", ".."]) :
    folder.file? path = (folder.files.reverse.find? fun file => file.1 == path).map Prod.snd := by
  obtain ⟨hempty, hpoint, hpoints⟩ : path ≠ "" ∧ path ≠ "." ∧ path ≠ ".." := by
    simpa using hplain
  have hwalk : folder.walk [] [path] = some [path] := by
    simp [Folder.walk, Folder.hasFolder, hempty, hpoint, hpoints]
  have hjoin : Folder.join [path] = path := by
    simp [Folder.join]
  rw [Folder.file?, hroot, hparts, hwalk]
  simp [hjoin]

namespace EnumLookup

/-- Of a folder with one file, an assembly is found just if the file is named like that. -/
theorem load_only [HeaderReader] {file name : String} (data : ByteArray)
    (hroot : (fileName name).startsWith "/" = false)
    (hparts : Folder.parts (fileName name) = [fileName name])
    (hplain : fileName name ∉ ["", ".", ".."]) :
    load [⟨[(file, data)]⟩] name = if file = fileName name then
      (Assembly.ofBytes data >>= Assembly.enumIndex).toOption else .none := by
  have hfile : (⟨[(file, data)]⟩ : Folder).file? (fileName name) = _ :=
    Folder.file?_plain hroot hparts hplain
  rw [load, List.findSome?_cons, hfile]
  by_cases hname : file = fileName name
  · simp only [hname, List.reverse_singleton, List.find?_cons, beq_self_eq_true, if_true]
    rfl
  · simp [hname]

/-- The folder with the assembly `Colors`. -/
def colorsFolder : Folder :=
  ⟨[("Colors.dll", ModuleDraft.colorsDraft.image)]⟩

/-- The enum of that assembly, which is spelled in some way. -/
def colorIn (assembly : String) : EnumName :=
  { assembly, culture := .none, keyToken := .none, nameSpace := "", name := "Color",
    nested := .none }

theorem load_colors :
    load [colorsFolder] "Colors" = some ((∅ : EnumIndex).insert "Color" .uInt16) := by
  have hsize : Image.sectionAddress + ModuleDraft.colorsDraft.content.length < Image.addressBound :=
    by decide +kernel
  obtain ⟨assembly, hopen, hread⟩ := ModuleDraft.colorsDraft.ofImage_loaded hsize rfl
  have hindex := ModuleDraft.enumIndex_colors hread (Assembly.indexed_of_ofImage hopen)
  have hheaders := ModuleDraft.colorsDraft.headersRead_loadable hsize
  rw [colorsFolder, load_only _ (by decide +kernel) (by decide +kernel) (by decide +kernel),
    if_pos (by decide), ModuleDraft.assemblyOfBytes_image _ hheaders, hopen, except_ok_bind, hindex]
  rfl

theorem load_colors_lower : load [colorsFolder] "colors" = .none := by
  rw [colorsFolder, load_only _ (by decide +kernel) (by decide +kernel) (by decide +kernel),
    if_neg (by decide)]

/-- The enum is missed because its assembly was asked for in lower case before. -/
theorem answers_colors :
    answers [colorsFolder] [colorIn "colors", colorIn "Colors"] = [.none, .none] ∧
      [colorIn "colors", colorIn "Colors"].map (alone [colorsFolder]) = [.none, some .uInt16] := by
  have hfound : load [colorsFolder] (colorIn "Colors").assembly = _ := load_colors
  have hfolded : folded "colors" = folded (colorIn "Colors").assembly := by
    apply String.toList_inj.1
    rw [folded, folded, String.toList_map, String.toList_map]
    decide
  have htype : ((∅ : EnumIndex).insert "Color" Primitive.uInt16)[(colorIn "Colors").fullName]? =
      some .uInt16 := Std.HashMap.getElem?_insert_self
  exact answers_missed (colorIn "Colors") "colors" hfolded load_colors_lower hfound htype

end EnumLookup

end ApiCensus
