/-
  Modules that are written step by step.

  * `DraftStep`: the steps that add to a module; `DraftStep.run` is what one does and answers.
  * `DraftStep.runAll`: several steps, one after the other.
-/
import ApiCensus.Draft.Basic

namespace ApiCensus

/-- A step that adds to a module. -/
inductive DraftStep where
  /-- The module is not the main one of an assembly. -/
  | withoutAssembly
  | assemblyRef (name : String) (version : AssemblyVersion) (key : ByteArray) (flags : Nat)
  /-- A type of the framework. -/
  | typeRef (nameSpace name : String)
  | nestedTypeRef (parent : Token) (name : String)
  | memberRef (parent : Token) (name : String) (signature : ByteArray)
  | typeSpec (signature : ByteArray)
  | publicClass (nameSpace name : String) (base : Token)
  | publicInterface (nameSpace name : String)
  | nestedClass (enclosing : Nat) (name : String) (base : Token)
  | implement (type : Nat) (interface : Token)
  | implementMethod (owner : Nat) (body declaration : Token)
  | customAttribute (parent constructor : Token) (value : ByteArray)
  | field (owner : Nat) (name : String) (signature : ByteArray)
  | method (owner : Nat) (name : String) (signature : ByteArray) (code : Option ByteArray)
  | methodFlags (rid flags : Nat)
  | implFlags (rid flags : Nat)
  /-- A method catches a type. -/
  | catchType (rid : Nat) (type : Token)
  | property (owner : Nat) (name : String) (signature : ByteArray)
  | getter (rid accessor : Nat)
  | event (owner : Nat) (name : String) (type : Token)
  | eventAccessor (rid accessor semantics : Nat)

/-- What a step answers. -/
inductive DraftAnswer where
  | none
  | row (rid : Nat)
  | token (token : Token)

namespace DraftStep

open ModuleDraft

/-- What a step does, and what it answers. -/
def run : DraftStep → Drafting DraftAnswer
  | withoutAssembly => do
    modify fun draft => { draft with hasAssembly := false }
    pure .none
  | assemblyRef name version key flags => .token <$> addAssemblyRef name version key flags
  | typeRef nameSpace name => .token <$> addTypeRef nameSpace name
  | nestedTypeRef parent name => .token <$> addNestedTypeRef parent name
  | memberRef parent name signature => .token <$> addMemberRef parent name signature
  | typeSpec signature => .token <$> addTypeSpec signature
  | publicClass nameSpace name base => .row <$> addClass nameSpace name base
  | publicInterface nameSpace name => .row <$> addInterface nameSpace name
  | nestedClass enclosing name base => .row <$> addNestedClass enclosing name base
  | implement type interface => (fun _ => .none) <$> ModuleDraft.implement type interface
  | implementMethod owner body declaration =>
    (fun _ => .none) <$> ModuleDraft.implementMethod owner body declaration
  | customAttribute parent constructor value =>
    (fun _ => .none) <$> addAttribute parent constructor value
  | field owner name signature => .row <$> addField owner name signature
  | method owner name signature code => .row <$> addMethod owner name signature code
  | methodFlags rid flags => (fun _ => .none) <$> setMethodFlags rid flags
  | implFlags rid flags => (fun _ => .none) <$> setImplFlags rid flags
  | catchType rid type => (fun _ => .none) <$> addCatch rid type
  | property owner name signature => .row <$> addProperty owner name signature
  | getter rid accessor => (fun _ => .none) <$> setGetter rid accessor
  | event owner name type => .row <$> addEvent owner name type
  | eventAccessor rid accessor semantics =>
    (fun _ => .none) <$> addEventAccessor rid accessor semantics

/-- Several steps, one after the other, with their answers. -/
def runAll (steps : List DraftStep) : Drafting (List DraftAnswer) :=
  steps.mapM run

end DraftStep

/-! ## Results of steps -/

namespace Drafting

variable {α β : Type} {draft next : ModuleDraft}

theorem bind_eq_ok {step : Drafting α} {rest : α → Drafting β} {b : β}
    (h : (step >>= rest) draft = .ok (b, next)) :
    ∃ a middle, step draft = .ok (a, middle) ∧ rest a middle = .ok (b, next) := by
  have hrun : (step >>= rest) draft = (step draft >>= fun result => rest result.1 result.2) := rfl
  rw [hrun] at h
  cases hstep : step draft with
  | error failure => simp [hstep, bind, Except.bind] at h
  | ok result =>
    rw [hstep] at h
    exact ⟨result.1, result.2, rfl, h⟩

/-- A step does one thing only. -/
theorem eq_of_ok {step : Drafting α} {a b : α} {other : ModuleDraft}
    (h : step draft = .ok (a, next)) (hother : step draft = .ok (b, other)) :
    a = b ∧ next = other := by
  rw [h] at hother
  exact Prod.mk.inj (Except.ok.inj hother)

theorem map_eq_ok {step : Drafting α} {f : α → β} {b : β}
    (h : (f <$> step) draft = .ok (b, next)) : ∃ a, step draft = .ok (a, next) ∧ f a = b := by
  rw [map_eq_pure_bind] at h
  obtain ⟨a, middle, hstep, h⟩ := bind_eq_ok h
  obtain ⟨rfl, rfl⟩ := Prod.mk.inj (Except.ok.inj h)
  exact ⟨a, hstep, rfl⟩

theorem map_of_ok {step : Drafting α} (f : α → β) {a : α} (h : step draft = .ok (a, next)) :
    (f <$> step) draft = .ok (f a, next) := by
  rw [map_eq_pure_bind]
  show (step draft >>= _) = _
  rw [h]
  rfl

/-- A member is taken only behind those of the same type and of earlier ones. -/
theorem requireOrder_eq_ok {last : Option Nat} {owner : Nat} {answer : Unit}
    (h : ModuleDraft.requireOrder last owner draft = .ok (answer, next)) :
    next = draft ∧ ∀ other ∈ last, other ≤ owner := by
  cases last with
  | none =>
    obtain ⟨-, rfl⟩ := Prod.mk.inj (Except.ok.inj h)
    exact ⟨rfl, by simp⟩
  | some last =>
    rw [ModuleDraft.requireOrder] at h
    by_cases hlast : owner < last
    · rw [if_pos hlast] at h
      cases h
    · rw [if_neg hlast] at h
      obtain ⟨-, rfl⟩ := Prod.mk.inj (Except.ok.inj h)
      exact ⟨rfl, by simpa using hlast⟩

theorem ordered_eq_ok {last : ModuleDraft → Option Nat} {owner : Nat} {rest : Drafting α} {a : α}
    (h : (do
      ModuleDraft.requireOrder (last (← get)) owner
      rest) draft = .ok (a, next)) :
    (∀ other ∈ last draft, other ≤ owner) ∧ rest draft = .ok (a, next) := by
  obtain ⟨_, _, hget, hrest⟩ := bind_eq_ok h
  obtain ⟨rfl, rfl⟩ := Prod.mk.inj (Except.ok.inj hget)
  obtain ⟨_, _, horder, hlast⟩ := bind_eq_ok hrest
  obtain ⟨rfl, horder⟩ := requireOrder_eq_ok horder
  exact ⟨horder, hlast⟩

end Drafting

namespace ModuleDraft

variable (draft : ModuleDraft)

theorem addAssemblyRef_apply (name : String) (version : AssemblyVersion) (key : ByteArray)
    (flags : Nat) : addAssemblyRef name version key flags draft =
      .ok (Token.ofRow .assemblyRef (draft.assemblyRefs.size + 1),
        { draft with
          texts := (draft.texts.add name).2
          blobs := (draft.blobs.add key).2
          assemblyRefs := draft.assemblyRefs.push
            { version, flags, key := (draft.blobs.add key).1
              name := (draft.texts.add name).1 } }) := rfl

theorem addTypeRefIn_apply (scope : Token) (nameSpace name : String) :
    addTypeRefIn scope nameSpace name draft =
      .ok (Token.ofRow .typeRef (draft.typeRefs.size + 1),
        { draft with
          texts := ((draft.texts.add name).2.add nameSpace).2
          typeRefs := draft.typeRefs.push
            { scope, name := (draft.texts.add name).1
              nameSpace := ((draft.texts.add name).2.add nameSpace).1 } }) := rfl

theorem addMemberRef_apply (parent : Token) (name : String) (signature : ByteArray) :
    addMemberRef parent name signature draft =
      .ok (Token.ofRow .memberRef (draft.memberRefs.size + 1),
        { draft with
          texts := (draft.texts.add name).2
          blobs := (draft.blobs.add signature).2
          memberRefs := draft.memberRefs.push
            { parent, name := (draft.texts.add name).1
              signature := (draft.blobs.add signature).1 } }) := rfl

theorem addTypeSpec_apply (signature : ByteArray) : addTypeSpec signature draft =
    .ok (Token.ofRow .typeSpec (draft.typeSpecs.size + 1),
      { draft with
        blobs := (draft.blobs.add signature).2
        typeSpecs := draft.typeSpecs.push (draft.blobs.add signature).1 }) := rfl

theorem addType_apply (flags : Nat) (nameSpace name : String) (base : Token) :
    addType flags nameSpace name base draft =
      .ok (draft.types.size + 1,
        { draft with
          texts := ((draft.texts.add name).2.add nameSpace).2
          types := draft.types.push
            { flags, name := (draft.texts.add name).1
              nameSpace := ((draft.texts.add name).2.add nameSpace).1, base } }) := rfl

theorem addAttribute_apply (parent constructor : Token) (value : ByteArray) :
    addAttribute parent constructor value draft =
      .ok ((), { draft with
        blobs := (draft.blobs.add value).2
        attributes := draft.attributes.push
          { parent, constructor, value := (draft.blobs.add value).1 } }) := rfl

theorem changeMethod_apply (rid : Nat) (change : MethodDraft → MethodDraft) :
    changeMethod rid change draft = .ok ((),
      if rid = 0 then draft
      else { draft with methods := draft.methods.modify (rid - 1) change }) := rfl

/-- What a change of a method leaves as it is. -/
theorem map_methods_modify {β : Type} {change : MethodDraft → MethodDraft} {f : MethodDraft → β}
    (hsame : ∀ method, f (change method) = f method) (methods : Array MethodDraft) (index : Nat) :
    (methods.modify index change).toList.map f = methods.toList.map f := by
  refine List.ext_getElem? fun place => ?_
  rw [Array.toList_modify, List.getElem?_map, List.getElem?_map, List.getElem?_modify]
  cases methods.toList[place]? with
  | none => rfl
  | some method =>
    show some (f (if index = place then change method else method)) = some (f method)
    split
    · rw [hsame]
    · rfl

theorem addNestedClass_apply (enclosing : Nat) (name : String) (base : Token) :
    addNestedClass enclosing name base draft =
      .ok (draft.types.size + 1,
        { draft with
          texts := ((draft.texts.add name).2.add "").2
          types := draft.types.push
            { flags := nestedClassFlags, name := (draft.texts.add name).1
              nameSpace := ((draft.texts.add name).2.add "").1, base }
          nested := draft.nested.push (draft.types.size + 1, enclosing) }) := rfl

theorem frameworkRef_eq_ok {draft next : ModuleDraft} {token : Token}
    (h : frameworkRef draft = .ok (token, next)) :
    (draft.framework.isSome = true ∧ next = draft) ∨
      (draft.framework.isSome = false ∧ ∃ middle version,
        addAssemblyRef "System.Runtime" version frameworkKey 0 draft = .ok (token, middle) ∧
          next = { middle with framework := some token }) := by
  obtain ⟨_, _, hget, hrest⟩ := Drafting.bind_eq_ok h
  obtain ⟨rfl, rfl⟩ := Prod.mk.inj (Except.ok.inj hget)
  cases hframework : draft.framework with
  | some known =>
    rw [hframework] at hrest
    obtain ⟨-, rfl⟩ := Prod.mk.inj (Except.ok.inj hrest)
    exact .inl ⟨rfl, rfl⟩
  | none =>
    rw [hframework] at hrest
    obtain ⟨added, middle, hadd, hrest⟩ := Drafting.bind_eq_ok hrest
    obtain ⟨_, _, hmodify, hrest⟩ := Drafting.bind_eq_ok hrest
    obtain ⟨-, rfl⟩ := Prod.mk.inj (Except.ok.inj hmodify)
    obtain ⟨rfl, rfl⟩ := Prod.mk.inj (Except.ok.inj hrest)
    exact .inr ⟨rfl, middle, _, hadd, rfl⟩

variable {draft} {next : ModuleDraft} {owner rid : Nat} {name : String} {signature : ByteArray}

theorem addField_eq_ok (h : addField owner name signature draft = .ok (rid, next)) :
    (∀ last ∈ draft.fields.back?.map MemberDraft.owner, last ≤ owner) ∧
      rid = draft.fields.size + 1 ∧ next = { draft with
        texts := (draft.texts.add name).2
        blobs := (draft.blobs.add signature).2
        fields := draft.fields.push
          { owner, name := (draft.texts.add name).1
            signature := (draft.blobs.add signature).1 } } := by
  obtain ⟨horder, hrest⟩ := Drafting.ordered_eq_ok h
  obtain ⟨hrid, hnext⟩ := Prod.mk.inj (Except.ok.inj hrest)
  exact ⟨horder, hrid.symm, hnext.symm⟩

theorem addField_of_order (h : ∀ last ∈ draft.fields.back?.map MemberDraft.owner, last ≤ owner) :
    addField owner name signature draft = .ok (draft.fields.size + 1,
      { draft with
        texts := (draft.texts.add name).2
        blobs := (draft.blobs.add signature).2
        fields := draft.fields.push
          { owner, name := (draft.texts.add name).1
            signature := (draft.blobs.add signature).1 } }) := by
  have horder : requireOrder (draft.fields.back?.map MemberDraft.owner) owner draft =
      .ok ((), draft) := by
    cases hlast : draft.fields.back?.map MemberDraft.owner with
    | none => rfl
    | some last =>
      rw [requireOrder, if_neg (Nat.not_lt.2 (h last hlast))]
      rfl
  rw [addField]
  show (requireOrder _ owner draft >>= _) = _
  rw [horder]
  rfl

theorem addMethod_eq_ok {code : Option ByteArray}
    (h : addMethod owner name signature code draft = .ok (rid, next)) :
    (∀ last ∈ draft.methods.back?.map (fun method => method.owner), last ≤ owner) ∧
      rid = draft.methods.size + 1 ∧ next = { draft with
        texts := (draft.texts.add name).2
        blobs := (draft.blobs.add signature).2
        methods := draft.methods.push
          { owner, name := (draft.texts.add name).1, signature := (draft.blobs.add signature).1
            implFlags := 0, flags := if code.isSome then methodFlags else abstractMethodFlags
            code, catches := [] } } := by
  obtain ⟨horder, hrest⟩ := Drafting.ordered_eq_ok h
  obtain ⟨hrid, hnext⟩ := Prod.mk.inj (Except.ok.inj hrest)
  exact ⟨horder, hrid.symm, hnext.symm⟩

theorem addProperty_eq_ok (h : addProperty owner name signature draft = .ok (rid, next)) :
    (∀ last ∈ draft.properties.back?.map MemberDraft.owner, last ≤ owner) ∧
      rid = draft.properties.size + 1 ∧ next = { draft with
        texts := (draft.texts.add name).2
        blobs := (draft.blobs.add signature).2
        properties := draft.properties.push
          { owner, name := (draft.texts.add name).1
            signature := (draft.blobs.add signature).1 } } := by
  obtain ⟨horder, hrest⟩ := Drafting.ordered_eq_ok h
  obtain ⟨hrid, hnext⟩ := Prod.mk.inj (Except.ok.inj hrest)
  exact ⟨horder, hrid.symm, hnext.symm⟩

theorem addEvent_eq_ok {type : Token}
    (h : addEvent owner name type draft = .ok (rid, next)) :
    (∀ last ∈ draft.events.back?.map EventDraft.owner, last ≤ owner) ∧
      rid = draft.events.size + 1 ∧ next = { draft with
        texts := (draft.texts.add name).2
        events := draft.events.push
          { owner, name := (draft.texts.add name).1, type } } := by
  obtain ⟨horder, hrest⟩ := Drafting.ordered_eq_ok h
  obtain ⟨hrid, hnext⟩ := Prod.mk.inj (Except.ok.inj hrest)
  exact ⟨horder, hrid.symm, hnext.symm⟩

end ModuleDraft

namespace DraftStep

variable {draft next : ModuleDraft} {answer : DraftAnswer}

theorem runAll_cons {step : DraftStep} {steps : List DraftStep} {answers : List DraftAnswer}
    (h : runAll (step :: steps) draft = .ok (answers, next)) :
    ∃ answer middle rest, step.run draft = .ok (answer, middle) ∧
      runAll steps middle = .ok (rest, next) ∧ answers = answer :: rest := by
  rw [runAll, List.mapM_cons] at h
  obtain ⟨answer, middle, hstep, h⟩ := Drafting.bind_eq_ok h
  obtain ⟨rest, last, hrest, h⟩ := Drafting.bind_eq_ok h
  obtain ⟨rfl, rfl⟩ := Prod.mk.inj (Except.ok.inj h)
  exact ⟨answer, middle, rest, hstep, hrest, rfl⟩

theorem runAll_nil {answers : List DraftAnswer} (h : runAll [] draft = .ok (answers, next)) :
    answers = [] ∧ next = draft := by
  obtain ⟨rfl, rfl⟩ := Prod.mk.inj (Except.ok.inj h)
  exact ⟨rfl, rfl⟩

theorem runAll_of_run {step : DraftStep} {steps : List DraftStep} {answers : List DraftAnswer}
    {middle : ModuleDraft} (hstep : step.run draft = .ok (answer, middle))
    (hsteps : runAll steps middle = .ok (answers, next)) :
    runAll (step :: steps) draft = .ok (answer :: answers, next) := by
  rw [runAll, List.mapM_cons]
  show (step.run draft >>= _) = _
  rw [hstep]
  show (runAll steps middle >>= _) = _
  rw [hsteps]
  rfl

end DraftStep

end ApiCensus
