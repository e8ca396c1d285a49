/-
  What a module that is written has been given for its heaps.

  * `DraftStep.passed`: the texts and byte strings that a step passes, row by row.
  * `ModuleDraft.heapRows`: the indexes that a module holds in their place.
  * `ModuleDraft.Kept`: every index holds what was passed for it. A step keeps the indexes of the
    rows before it (`Kept.run`), and so do several steps (`Kept.runAll`).
-/
import ApiCensus.Draft.Rows
import ApiCensus.Proofs.Draft.Steps
import ApiCensus.Proofs.Metadata.Heap
import Mathlib.Data.List.Forall2

namespace ApiCensus

/-! ## What is passed -/

/-- A value of one of the two heaps. -/
inductive HeapItem where
  | text (value : String)
  | bytes (value : ByteArray)

/-- An index of one of the two heaps. -/
inductive HeapIndex where
  | text (index : Nat)
  | bytes (index : Nat)

/-- What is passed for the heaps in a row of a table. -/
structure PassedRow where
  table : TableId
  /-- What the rows of the table are sorted by; they keep their order if it is the same. -/
  key : Nat := 0
  items : List HeapItem

namespace PassedRow

/-- The row of a referenced assembly: its key, its name, and no culture and no hash. -/
def ofAssemblyRef (name : String) (key : ByteArray) : PassedRow where
  table := .assemblyRef
  items := [.bytes key, .text name, .text "", .bytes .empty]

/-- The rows that a module starts with. -/
def ofStart (name : String) : List PassedRow :=
  [{ table := .module, items := [.text name] },
   { table := .assembly, items := [.bytes .empty, .text name, .text ""] },
   { table := .typeDef, items := [.text "<Module>", .text ""] }]

/-- What is passed for a table, in the order of its rows. -/
def inTable (passed : List PassedRow) (table : TableId) : List PassedRow :=
  (passed.filter (·.table == table)).mergeSort fun a b => decide (a.key ≤ b.key)

end PassedRow

namespace DraftStep

/-- The module stays the main one of its assembly. -/
def keepsAssembly : DraftStep → Bool
  | withoutAssembly => false
  | _ => true

/-- A step needs the assembly that holds the types of the framework. -/
def needsFramework : DraftStep → Bool
  | typeRef .. => true
  | _ => false

/-- What a step passes, row by row. That assembly is referenced unless it already is. -/
def passed (hasFramework : Bool) : DraftStep → List PassedRow
  | assemblyRef name _ key _ => [.ofAssemblyRef name key]
  | typeRef nameSpace name =>
    (if hasFramework then [] else [.ofAssemblyRef "System.Runtime" ModuleDraft.frameworkKey]) ++
      [{ table := .typeRef, items := [.text name, .text nameSpace] }]
  | nestedTypeRef _ name => [{ table := .typeRef, items := [.text name, .text ""] }]
  | memberRef _ name signature =>
    [{ table := .memberRef, items := [.text name, .bytes signature] }]
  | typeSpec signature => [{ table := .typeSpec, items := [.bytes signature] }]
  | publicClass nameSpace name _ | publicInterface nameSpace name =>
    [{ table := .typeDef, items := [.text name, .text nameSpace] }]
  | nestedClass _ name _ => [{ table := .typeDef, items := [.text name, .text ""] }]
  | customAttribute parent _ value =>
    [{ table := .customAttribute, key := CodedIndex.encode .hasCustomAttribute parent
       items := [.bytes value] }]
  | field _ name signature => [{ table := .field, items := [.text name, .bytes signature] }]
  | method _ name signature _ => [{ table := .methodDef, items := [.text name, .bytes signature] }]
  | property _ name signature => [{ table := .property, items := [.text name, .bytes signature] }]
  | event _ name _ => [{ table := .event, items := [.text name] }]
  | _ => []

/-- What several steps pass. -/
def passedAll (hasFramework : Bool) : List DraftStep → List PassedRow
  | [] => []
  | step :: steps =>
    step.passed hasFramework ++ passedAll (hasFramework || step.needsFramework) steps

end DraftStep

/-! ## What is held -/

/-- The indexes of the heaps that a row holds. -/
structure IndexedRow where
  key : Nat := 0
  indexes : List HeapIndex

namespace ModuleDraft

/-- The indexes that the rows of a table hold, in the order in which they were added. -/
def heapRows (draft : ModuleDraft) : TableId → List IndexedRow
  | .module => [{ indexes := [.text draft.name] }]
  | .typeRef => draft.typeRefs.toList.map fun type =>
    { indexes := [.text type.name, .text type.nameSpace] }
  | .typeDef => draft.types.toList.map fun type =>
    { indexes := [.text type.name, .text type.nameSpace] }
  | .field => draft.fields.toList.map fun field =>
    { indexes := [.text field.name, .bytes field.signature] }
  | .methodDef => draft.methods.toList.map fun method =>
    { indexes := [.text method.name, .bytes method.signature] }
  | .memberRef => draft.memberRefs.toList.map fun member =>
    { indexes := [.text member.name, .bytes member.signature] }
  | .customAttribute => draft.attributes.toList.map fun given =>
    { key := CodedIndex.encode .hasCustomAttribute given.parent, indexes := [.bytes given.value] }
  | .event => draft.events.toList.map fun event => { indexes := [.text event.name] }
  | .property => draft.properties.toList.map fun property =>
    { indexes := [.text property.name, .bytes property.signature] }
  | .typeSpec => draft.typeSpecs.toList.map fun signature => { indexes := [.bytes signature] }
  | .assembly => [{ indexes := [.bytes 0, .text draft.name, .text 0] }]
  | .assemblyRef => draft.assemblyRefs.toList.map fun assembly =>
    { indexes := [.bytes assembly.key, .text assembly.name, .text 0, .bytes 0] }
  | _ => []

/-- An index holds a value. -/
def Held (draft : ModuleDraft) : HeapIndex → HeapItem → Prop
  | .text index, .text value => Heap.Holds draft.texts.bytes index value
  | .bytes index, .bytes value => Heap.Holds draft.blobs.bytes index value
  | _, _ => False

/-- A row holds what was passed for it. -/
structure HeldRow (draft : ModuleDraft) (row : IndexedRow) (given : PassedRow) : Prop where
  key : row.key = given.key
  held : List.Forall₂ draft.Held row.indexes given.items

/-- The heaps are sound and have only grown. -/
structure Grows (draft next : ModuleDraft) : Prop where
  texts : next.texts.Sound
  blobs : next.blobs.Sound
  textBytes : draft.texts.bytes <+: next.texts.bytes
  blobBytes : draft.blobs.bytes <+: next.blobs.bytes

/-- The rows of every table hold what was passed for them. -/
structure Kept (draft : ModuleDraft) (passed : List PassedRow) : Prop where
  texts : draft.texts.Sound
  blobs : draft.blobs.Sound
  rows : ∀ table, List.Forall₂ draft.HeldRow (draft.heapRows table)
    (passed.filter (·.table == table))

variable {draft next : ModuleDraft} {passed : List PassedRow}

theorem held_zero_text (draft : ModuleDraft) : draft.Held (.text 0) (.text "") := by
  simp [Held, Heap.Holds, HeapValue.isEmpty]

theorem held_zero_bytes (draft : ModuleDraft) : draft.Held (.bytes 0) (.bytes .empty) := by
  simp [Held, Heap.Holds, HeapValue.isEmpty, ByteArray.isEmpty]

theorem Grows.held (h : draft.Grows next) {index : HeapIndex} {item : HeapItem}
    (hheld : draft.Held index item) : next.Held index item := by
  cases index <;> cases item
  · exact Heap.Holds.of_prefix hheld h.textBytes
  · exact hheld
  · exact hheld
  · exact Heap.Holds.of_prefix hheld h.blobBytes

theorem Grows.heldRow (h : draft.Grows next) {row : IndexedRow} {given : PassedRow}
    (hheld : draft.HeldRow row given) : next.HeldRow row given :=
  ⟨hheld.key, hheld.held.imp fun _ _ => h.held⟩

/-- A step that writes no row keeps what is held. -/
theorem Kept.same (h : draft.Kept passed) (hgrows : draft.Grows next)
    (hrows : next.heapRows = draft.heapRows) : next.Kept passed := by
  refine ⟨hgrows.texts, hgrows.blobs, fun table => ?_⟩
  rw [hrows]
  exact (h.rows table).imp fun _ _ => hgrows.heldRow

/-- A row is written whose indexes hold what is passed for it. -/
theorem Kept.push (h : draft.Kept passed) (hgrows : draft.Grows next) (row : IndexedRow)
    {given : PassedRow} (hrows : ∀ table, next.heapRows table =
      draft.heapRows table ++ if table = given.table then [row] else [])
    (hheld : next.HeldRow row given) : next.Kept (passed ++ [given]) := by
  refine ⟨hgrows.texts, hgrows.blobs, fun table => ?_⟩
  have hbefore := (h.rows table).imp fun _ _ => hgrows.heldRow
  rw [hrows, List.filter_append]
  refine List.rel_append hbefore ?_
  by_cases htable : table = given.table
  · rw [if_pos htable, htable, List.filter_cons_of_pos (by simp)]
    exact .cons hheld .nil
  · rw [if_neg htable, List.filter_cons_of_neg (by simpa using Ne.symm htable)]
    exact .nil

/-! ## Rows that are written -/

/-- A row of a name and a signature is written. -/
theorem Kept.pushMember (h : draft.Kept passed) {name : String} {signature : ByteArray}
    {table : TableId} (htexts : next.texts = (draft.texts.add name).2)
    (hblobs : next.blobs = (draft.blobs.add signature).2)
    (hrows : ∀ other, next.heapRows other = draft.heapRows other ++ if other = table then
      [{ indexes := [.text (draft.texts.add name).1, .bytes (draft.blobs.add signature).1] }]
      else []) :
    next.Kept (passed ++ [{ table, items := [.text name, .bytes signature] }]) := by
  have ht := HeapDraft.add_spec h.texts name
  have hb := HeapDraft.add_spec h.blobs signature
  rw [← htexts] at ht
  rw [← hblobs] at hb
  exact h.push ⟨ht.sound, hb.sound, ht.grows, hb.grows⟩ _ hrows
    ⟨rfl, .cons ht.holds (.cons hb.holds .nil)⟩

/-- A row of a name and a namespace is written. -/
theorem Kept.pushType (h : draft.Kept passed) {name nameSpace : String} {table : TableId}
    (htexts : next.texts = ((draft.texts.add name).2.add nameSpace).2)
    (hblobs : next.blobs = draft.blobs)
    (hrows : ∀ other, next.heapRows other = draft.heapRows other ++ if other = table then
      [{ indexes := [.text (draft.texts.add name).1,
          .text ((draft.texts.add name).2.add nameSpace).1] }] else []) :
    next.Kept (passed ++ [{ table, items := [.text name, .text nameSpace] }]) := by
  have hname := HeapDraft.add_spec h.texts name
  have hspace := HeapDraft.add_spec hname.sound nameSpace
  obtain ⟨hsound, hsame⟩ := h.blobs.of_eq hblobs
  rw [← htexts] at hspace
  exact h.push ⟨hspace.sound, hsound, hname.grows.trans hspace.grows, hsame⟩ _ hrows
    ⟨rfl, .cons (hname.holds.of_prefix hspace.grows) (.cons hspace.holds .nil)⟩

/-- A row of a text is written. -/
theorem Kept.pushText (h : draft.Kept passed) {name : String} {table : TableId}
    (htexts : next.texts = (draft.texts.add name).2) (hblobs : next.blobs = draft.blobs)
    (hrows : ∀ other, next.heapRows other = draft.heapRows other ++ if other = table then
      [{ indexes := [.text (draft.texts.add name).1] }] else []) :
    next.Kept (passed ++ [{ table, items := [.text name] }]) := by
  have ht := HeapDraft.add_spec h.texts name
  obtain ⟨hsound, hsame⟩ := h.blobs.of_eq hblobs
  rw [← htexts] at ht
  exact h.push ⟨ht.sound, hsound, ht.grows, hsame⟩ _ hrows ⟨rfl, .cons ht.holds .nil⟩

/-- A row of a byte string is written. -/
theorem Kept.pushBytes (h : draft.Kept passed) {value : ByteArray} {table : TableId} {key : Nat}
    (htexts : next.texts = draft.texts) (hblobs : next.blobs = (draft.blobs.add value).2)
    (hrows : ∀ other, next.heapRows other = draft.heapRows other ++ if other = table then
      [{ key, indexes := [.bytes (draft.blobs.add value).1] }] else []) :
    next.Kept (passed ++ [{ table, key, items := [.bytes value] }]) := by
  have hb := HeapDraft.add_spec h.blobs value
  obtain ⟨hsound, hsame⟩ := h.texts.of_eq htexts
  rw [← hblobs] at hb
  exact h.push ⟨hsound, hb.sound, hsame, hb.grows⟩ _ hrows ⟨rfl, .cons hb.holds .nil⟩

theorem Kept.addAssemblyRef (h : draft.Kept passed) {name : String} {version : AssemblyVersion}
    {key : ByteArray} {flags : Nat} {token : Token}
    (hrun : ModuleDraft.addAssemblyRef name version key flags draft = .ok (token, next)) :
    next.Kept (passed ++ [.ofAssemblyRef name key]) := by
  obtain ⟨-, rfl⟩ := Drafting.eq_of_ok hrun (addAssemblyRef_apply ..)
  have ht := HeapDraft.add_spec h.texts name
  have hb := HeapDraft.add_spec h.blobs key
  refine h.push ⟨ht.sound, hb.sound, ht.grows, hb.grows⟩
    { indexes := [.bytes (draft.blobs.add key).1, .text (draft.texts.add name).1, .text 0, .bytes 0] }
    (fun table => ?_)
    ⟨rfl, .cons hb.holds (.cons ht.holds (.cons (held_zero_text _) (.cons (held_zero_bytes _) .nil)))⟩
  cases table
  case assemblyRef => simp [heapRows, PassedRow.ofAssemblyRef]
  all_goals exact (List.append_nil _).symm

theorem Kept.addTypeRefIn (h : draft.Kept passed) {scope token : Token} {nameSpace name : String}
    (hrun : ModuleDraft.addTypeRefIn scope nameSpace name draft = .ok (token, next)) :
    next.Kept (passed ++ [{ table := .typeRef, items := [.text name, .text nameSpace] }]) := by
  obtain ⟨-, rfl⟩ := Drafting.eq_of_ok hrun (addTypeRefIn_apply ..)
  refine h.pushType rfl rfl fun table => ?_
  cases table
  case typeRef => simp [heapRows]
  all_goals exact (List.append_nil _).symm

theorem Kept.addType (h : draft.Kept passed) {flags rid : Nat} {base : Token}
    {nameSpace name : String}
    (hrun : ModuleDraft.addType flags nameSpace name base draft = .ok (rid, next)) :
    next.Kept (passed ++ [{ table := .typeDef, items := [.text name, .text nameSpace] }]) := by
  obtain ⟨-, rfl⟩ := Drafting.eq_of_ok hrun (addType_apply ..)
  refine h.pushType rfl rfl fun table => ?_
  cases table
  case typeDef => simp [heapRows]
  all_goals exact (List.append_nil _).symm

theorem Kept.changeMethod (h : draft.Kept passed) {rid : Nat} {change : MethodDraft → MethodDraft}
    {answer : Unit} (hrun : ModuleDraft.changeMethod rid change draft = .ok (answer, next))
    (hname : ∀ method, (change method).name = method.name)
    (hsignature : ∀ method, (change method).signature = method.signature) : next.Kept passed := by
  obtain ⟨-, rfl⟩ := Drafting.eq_of_ok hrun (changeMethod_apply ..)
  split
  · exact h
  · refine h.same ⟨h.texts, h.blobs, List.prefix_refl _, List.prefix_refl _⟩ (funext fun table => ?_)
    cases table
    case methodDef =>
      exact map_methods_modify (fun method => by rw [hname, hsignature]) draft.methods (rid - 1)
    all_goals rfl

/-- A step that changes neither the heaps nor a row that holds their indexes. -/
theorem Kept.untouched (h : draft.Kept passed) (htexts : next.texts = draft.texts)
    (hblobs : next.blobs = draft.blobs) (hrows : next.heapRows = draft.heapRows) :
    next.Kept passed := by
  obtain ⟨ht, hsameTexts⟩ := h.texts.of_eq htexts
  obtain ⟨hb, hsameBlobs⟩ := h.blobs.of_eq hblobs
  exact h.same ⟨ht, hb, hsameTexts, hsameBlobs⟩ hrows

theorem Kept.append_nil (h : draft.Kept passed) : draft.Kept (passed ++ []) := by
  rwa [List.append_nil]

theorem unmarked (hframework : next.framework.isSome = draft.framework.isSome)
    (hassembly : next.hasAssembly = draft.hasAssembly) :
    next.framework.isSome = (draft.framework.isSome || false) ∧
      next.hasAssembly = (draft.hasAssembly && true) := by
  rw [hframework, hassembly, Bool.or_false, Bool.and_true]
  exact ⟨rfl, rfl⟩

/-- A reference to a type of the framework comes with one to the framework, if there is none. -/
theorem Kept.addTypeRef (h : draft.Kept passed) {nameSpace name : String} {token : Token}
    (hrun : ModuleDraft.addTypeRef nameSpace name draft = .ok (token, next)) :
    next.Kept (passed ++ DraftStep.passed draft.framework.isSome (.typeRef nameSpace name)) ∧
      next.framework.isSome = (draft.framework.isSome || true) ∧
      next.hasAssembly = (draft.hasAssembly && true) := by
  obtain ⟨scope, middle, hframework, href⟩ := Drafting.bind_eq_ok hrun
  obtain ⟨hsome, hkeeps⟩ : middle.framework.isSome = next.framework.isSome ∧
      next.hasAssembly = (middle.hasAssembly && true) := by
    obtain ⟨-, rfl⟩ := Drafting.eq_of_ok href (addTypeRefIn_apply ..)
    exact ⟨rfl, (Bool.and_true _).symm⟩
  rw [DraftStep.passed, ← List.append_assoc, ← hsome]
  rcases frameworkRef_eq_ok hframework with ⟨hknown, rfl⟩ | ⟨hunknown, added, version, hfirst, rfl⟩
  · rw [if_pos hknown, hknown]
    exact ⟨h.append_nil.addTypeRefIn href, rfl, hkeeps⟩
  · have hadded := h.addAssemblyRef hfirst
    have hmiddle : ModuleDraft.Kept { added with framework := some scope } _ :=
      hadded.untouched rfl rfl rfl
    rw [hunknown]
    obtain ⟨-, rfl⟩ := Drafting.eq_of_ok hfirst (addAssemblyRef_apply ..)
    exact ⟨hmiddle.addTypeRefIn href, rfl, hkeeps⟩

/-- **A step keeps what the rows before it hold, and the rows that it writes hold what was passed
    for them.** -/
theorem Kept.run (h : draft.Kept passed) {step : DraftStep} {answer : DraftAnswer}
    (hrun : step.run draft = .ok (answer, next)) :
    next.Kept (passed ++ step.passed draft.framework.isSome) ∧
      next.framework.isSome = (draft.framework.isSome || step.needsFramework) ∧
      next.hasAssembly = (draft.hasAssembly && step.keepsAssembly) := by
  cases step with
  | withoutAssembly =>
    obtain ⟨-, rfl⟩ := Prod.mk.inj (Except.ok.inj hrun)
    exact ⟨.append_nil (h.untouched rfl rfl rfl), (Bool.or_false _).symm, (Bool.and_false _).symm⟩
  | assemblyRef name version key flags =>
    obtain ⟨token, hadd, -⟩ := Drafting.map_eq_ok hrun
    have hkept := h.addAssemblyRef hadd
    obtain ⟨-, rfl⟩ := Drafting.eq_of_ok hadd (addAssemblyRef_apply ..)
    exact ⟨hkept, unmarked rfl rfl⟩
  | typeRef nameSpace name =>
    obtain ⟨token, hadd, -⟩ := Drafting.map_eq_ok hrun
    exact h.addTypeRef hadd
  | nestedTypeRef parent name =>
    obtain ⟨token, hadd, -⟩ := Drafting.map_eq_ok hrun
    have hkept := h.addTypeRefIn hadd
    obtain ⟨-, rfl⟩ := Drafting.eq_of_ok hadd (addTypeRefIn_apply ..)
    exact ⟨hkept, unmarked rfl rfl⟩
  | memberRef parent name signature =>
    obtain ⟨token, hadd, -⟩ := Drafting.map_eq_ok hrun
    obtain ⟨-, rfl⟩ := Drafting.eq_of_ok hadd (addMemberRef_apply ..)
    refine ⟨h.pushMember rfl rfl fun table => ?_, unmarked rfl rfl⟩
    cases table
    case memberRef => simp [heapRows]
    all_goals exact (List.append_nil _).symm
  | typeSpec signature =>
    obtain ⟨token, hadd, -⟩ := Drafting.map_eq_ok hrun
    obtain ⟨-, rfl⟩ := Drafting.eq_of_ok hadd (addTypeSpec_apply ..)
    refine ⟨h.pushBytes rfl rfl fun table => ?_, unmarked rfl rfl⟩
    cases table
    case typeSpec => simp [heapRows]
    all_goals exact (List.append_nil _).symm
  | publicClass nameSpace name base =>
    obtain ⟨rid, hadd, -⟩ := Drafting.map_eq_ok hrun
    have hkept := h.addType hadd
    obtain ⟨-, rfl⟩ := Drafting.eq_of_ok hadd (addType_apply ..)
    exact ⟨hkept, unmarked rfl rfl⟩
  | publicInterface nameSpace name =>
    obtain ⟨rid, hadd, -⟩ := Drafting.map_eq_ok hrun
    have hkept := h.addType hadd
    obtain ⟨-, rfl⟩ := Drafting.eq_of_ok hadd (addType_apply ..)
    exact ⟨hkept, unmarked rfl rfl⟩
  | nestedClass enclosing name base =>
    obtain ⟨rid, hadd, -⟩ := Drafting.map_eq_ok hrun
    obtain ⟨type, middle, htype, hadd⟩ := Drafting.bind_eq_ok hadd
    have hkept := h.addType htype
    obtain ⟨-, rfl⟩ := Drafting.eq_of_ok htype (addType_apply ..)
    obtain ⟨-, rfl⟩ := Prod.mk.inj (Except.ok.inj hadd)
    exact ⟨hkept.untouched rfl rfl rfl, unmarked rfl rfl⟩
  | implement type interface =>
    obtain ⟨-, rfl⟩ := Prod.mk.inj (Except.ok.inj hrun)
    exact ⟨.append_nil (h.untouched rfl rfl rfl), unmarked rfl rfl⟩
  | implementMethod owner body declaration =>
    obtain ⟨-, rfl⟩ := Prod.mk.inj (Except.ok.inj hrun)
    exact ⟨.append_nil (h.untouched rfl rfl rfl), unmarked rfl rfl⟩
  | customAttribute parent constructor value =>
    obtain ⟨_, hadd, -⟩ := Drafting.map_eq_ok hrun
    obtain ⟨-, rfl⟩ := Drafting.eq_of_ok hadd (addAttribute_apply ..)
    refine ⟨h.pushBytes rfl rfl fun table => ?_, unmarked rfl rfl⟩
    cases table
    case customAttribute => simp [heapRows]
    all_goals exact (List.append_nil _).symm
  | field owner name signature =>
    obtain ⟨rid, hadd, -⟩ := Drafting.map_eq_ok hrun
    obtain ⟨-, -, rfl⟩ := addField_eq_ok hadd
    refine ⟨h.pushMember rfl rfl fun table => ?_, unmarked rfl rfl⟩
    cases table
    case field => simp [heapRows]
    all_goals exact (List.append_nil _).symm
  | method owner name signature code =>
    obtain ⟨rid, hadd, -⟩ := Drafting.map_eq_ok hrun
    obtain ⟨-, -, rfl⟩ := addMethod_eq_ok hadd
    refine ⟨h.pushMember rfl rfl fun table => ?_, unmarked rfl rfl⟩
    cases table
    case methodDef => simp [heapRows]
    all_goals exact (List.append_nil _).symm
  | methodFlags rid flags | implFlags rid flags | catchType rid type =>
    obtain ⟨_, hchange, -⟩ := Drafting.map_eq_ok hrun
    have hkept := h.changeMethod hchange (fun _ => rfl) (fun _ => rfl)
    refine ⟨hkept.append_nil, ?_⟩
    obtain ⟨-, rfl⟩ := Prod.mk.inj (Except.ok.inj hchange)
    split <;> exact unmarked rfl rfl
  | property owner name signature =>
    obtain ⟨rid, hadd, -⟩ := Drafting.map_eq_ok hrun
    obtain ⟨-, -, rfl⟩ := addProperty_eq_ok hadd
    refine ⟨h.pushMember rfl rfl fun table => ?_, unmarked rfl rfl⟩
    cases table
    case property => simp [heapRows]
    all_goals exact (List.append_nil _).symm
  | getter rid accessor | eventAccessor rid accessor semantics =>
    obtain ⟨-, rfl⟩ := Prod.mk.inj (Except.ok.inj hrun)
    exact ⟨.append_nil (h.untouched rfl rfl rfl), unmarked rfl rfl⟩
  | event owner name type =>
    obtain ⟨rid, hadd, -⟩ := Drafting.map_eq_ok hrun
    obtain ⟨-, -, rfl⟩ := addEvent_eq_ok hadd
    refine ⟨h.pushText rfl rfl fun table => ?_, unmarked rfl rfl⟩
    cases table
    case event => simp [heapRows]
    all_goals exact (List.append_nil _).symm

/-! ## Whole modules -/

theorem kept_start (name : String) (hasAssembly : Bool) :
    (start name hasAssembly).Kept (PassedRow.ofStart name) := by
  have hname := HeapDraft.add_spec (HeapDraft.sound_start : ({} : HeapDraft String).Sound) name
  have hglobal := HeapDraft.add_spec hname.sound "<Module>"
  have hnameHeld := hname.holds.of_prefix hglobal.grows
  refine ⟨hglobal.sound, HeapDraft.sound_start, fun table => ?_⟩
  cases table
  case module => exact .cons ⟨rfl, .cons hnameHeld .nil⟩ .nil
  case assembly =>
    exact .cons ⟨rfl, .cons (held_zero_bytes _) (.cons hnameHeld (.cons (held_zero_text _) .nil))⟩
      .nil
  case typeDef => exact .cons ⟨rfl, .cons hglobal.holds (.cons (held_zero_text _) .nil)⟩ .nil
  all_goals exact .nil

/-- **Several steps keep what is held, whatever is added before or after it.** -/
theorem Kept.runAll (h : draft.Kept passed) {steps : List DraftStep} {answers : List DraftAnswer}
    (hrun : DraftStep.runAll steps draft = .ok (answers, next)) :
    next.Kept (passed ++ DraftStep.passedAll draft.framework.isSome steps) ∧
      next.hasAssembly = (draft.hasAssembly && steps.all DraftStep.keepsAssembly) := by
  induction steps generalizing draft passed answers with
  | nil =>
    obtain ⟨-, rfl⟩ := DraftStep.runAll_nil hrun
    exact ⟨h.append_nil, (Bool.and_true _).symm⟩
  | cons step steps ih =>
    obtain ⟨answer, middle, rest, hstep, hsteps, -⟩ := DraftStep.runAll_cons hrun
    obtain ⟨hkept, hframework, hassembly⟩ := h.run hstep
    obtain ⟨hrest, hlast⟩ := ih hkept hsteps
    rw [DraftStep.passedAll, ← List.append_assoc, ← hframework, List.all_cons, ← Bool.and_assoc,
      ← hassembly]
    exact ⟨hrest, hlast⟩

end ModuleDraft

end ApiCensus
