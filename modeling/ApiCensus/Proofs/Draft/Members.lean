/-
  The owners of the members of a module that is written.

  * `ModuleDraft.owners`: the owners of the members of a kind, in the order of their rows.
  * `DraftStep.rowsAdded`: the rows that steps gave for the members of a type.
  * `rowsOwned_eq_range'`: where owners are in order, the members of a type are a run of rows.
  * `ModuleDraft.Takes`: what a step adds to the members of a kind (`takes_run`).
  * `ModuleDraft.owners_runAll`: after several steps the owners are in order, and every member has
    the row that was given for it.
-/
import ApiCensus.Draft.Rows
import ApiCensus.Proofs.Draft.Steps
import Mathlib.Data.List.Pairwise

namespace ApiCensus

/-! ## Kinds of members -/

/-- A kind of member that a type owns. -/
inductive MemberKind where
  | field | method | property | event
  deriving DecidableEq

namespace DraftStep

/-- The kind and the owner of the member that a step adds. -/
def member? : DraftStep → Option (MemberKind × Nat)
  | field owner .. => some (.field, owner)
  | method owner .. => some (.method, owner)
  | property owner .. => some (.property, owner)
  | event owner .. => some (.event, owner)
  | _ => none

/-- The owner of the member that a step adds, if it is of a given kind. -/
def owner? (kind : MemberKind) (step : DraftStep) : Option Nat :=
  step.member?.bind fun member => if member.1 = kind then some member.2 else none

/-- The rows that steps gave for the members of a kind that they added to a type. -/
def rowsAdded (kind : MemberKind) (type : Nat) : List DraftStep → List DraftAnswer → List Nat
  | step :: steps, .row rid :: answers =>
    if step.owner? kind = some type then rid :: rowsAdded kind type steps answers
    else rowsAdded kind type steps answers
  | _ :: steps, _ :: answers => rowsAdded kind type steps answers
  | _, _ => []

end DraftStep

/-! ## Owners in order -/

/-- The numbers of the members of a type, given the owners of all members from `number` on. -/
def rowsOwned (type : Nat) (number : Nat) : List Nat → List Nat
  | [] => []
  | owner :: owners =>
    if owner = type then number :: rowsOwned type (number + 1) owners
    else rowsOwned type (number + 1) owners

theorem rowsOwned_append (type number : Nat) (owners more : List Nat) :
    rowsOwned type number (owners ++ more) =
      rowsOwned type number owners ++ rowsOwned type (number + owners.length) more := by
  induction owners generalizing number with
  | nil => rfl
  | cons owner owners ih =>
    rw [List.cons_append, rowsOwned, rowsOwned, ih, List.length_cons, Nat.add_right_comm,
      Nat.add_assoc number]
    split <;> rfl

theorem rowsOwned_of_forall_ne {type : Nat} {owners : List Nat} (h : ∀ owner ∈ owners, owner ≠ type)
    (number : Nat) : rowsOwned type number owners = [] := by
  induction owners generalizing number with
  | nil => rfl
  | cons owner owners ih =>
    obtain ⟨hne, hrest⟩ := List.forall_mem_cons.1 h
    rw [rowsOwned, if_neg hne, ih hrest]

/-- The members of a type are a run of rows, behind those of the types before it. -/
theorem rowsOwned_eq_range' {owners : List Nat} (h : owners.Pairwise (· ≤ ·)) (type number : Nat) :
    rowsOwned type number owners =
      List.range' (number + owners.countP (· < type)) (owners.count type) := by
  induction owners generalizing number with
  | nil => rfl
  | cons owner owners ih =>
    obtain ⟨hle, hrest⟩ := List.pairwise_cons.1 h
    rw [rowsOwned]
    rcases Nat.lt_trichotomy owner type with hlt | rfl | hgt
    · rw [if_neg (Nat.ne_of_lt hlt), ih hrest, List.countP_cons_of_pos (by simpa using hlt),
        List.count_cons_of_ne (Nat.ne_of_lt hlt), Nat.add_assoc, Nat.add_comm 1]
    · have hbefore : owners.countP (· < owner) = 0 :=
        List.countP_eq_zero.2 fun other hother => by simpa using hle other hother
      rw [if_pos rfl, ih hrest, List.countP_cons_of_neg (by simp), List.count_cons_self, hbefore]
      rfl
    · have hnone : ∀ other ∈ owners, other ≠ type := fun other hother =>
        Nat.ne_of_gt (Nat.lt_of_lt_of_le hgt (hle other hother))
      have hcount : (owner :: owners).count type = 0 := by
        refine List.count_eq_zero_of_not_mem fun hmem => ?_
        rcases List.mem_cons.1 hmem with rfl | hmem
        · exact Nat.lt_irrefl _ hgt
        · exact hnone type hmem rfl
      rw [if_neg (Nat.ne_of_gt hgt), rowsOwned_of_forall_ne hnone, hcount]
      rfl

/-- Owners stay in order with one that is not before the last one. -/
theorem pairwise_concat {owners : List Nat} {owner : Nat} (h : owners.Pairwise (· ≤ ·))
    (hlast : ∀ last ∈ owners.getLast?, last ≤ owner) : (owners ++ [owner]).Pairwise (· ≤ ·) := by
  refine List.pairwise_append.2 ⟨h, List.pairwise_singleton _ _, ?_⟩
  intro other hother _ howner
  rw [List.mem_singleton.1 howner]
  have hne := List.ne_nil_of_mem hother
  have hend : owners.getLast hne ≤ owner := hlast _ (by rw [List.getLast?_eq_some_getLast hne]; rfl)
  exact Nat.le_trans (h.rel_getLast hother) hend

/-! ## Owners in a module -/

namespace ModuleDraft

/-- The owners of the members of a kind, in the order of their rows. -/
def owners (draft : ModuleDraft) : MemberKind → List Nat
  | .field => draft.fields.toList.map MemberDraft.owner
  | .method => draft.methods.toList.map fun method => method.owner
  | .property => draft.properties.toList.map MemberDraft.owner
  | .event => draft.events.toList.map EventDraft.owner

/-- What a step adds to the members of a kind: none, or the next one, whose owner is not before
    the last one. -/
structure Takes (draft next : ModuleDraft) (kind : MemberKind) (owner? : Option Nat)
    (answer : DraftAnswer) : Prop where
  owners : next.owners kind = draft.owners kind ++ owner?.toList
  answers : ∀ owner ∈ owner?, answer = .row ((draft.owners kind).length + 1)
  ordered : ∀ owner ∈ owner?, ∀ last ∈ (draft.owners kind).getLast?, last ≤ owner

variable {draft next : ModuleDraft} {kind : MemberKind} {answer : DraftAnswer}

theorem takes_none (h : next.owners kind = draft.owners kind) :
    draft.Takes next kind none answer :=
  ⟨h.trans (List.append_nil _).symm, nofun, nofun⟩

/-- A step that changes no owner. -/
theorem takes_none_of_same (hfields : next.fields = draft.fields)
    (hmethods : next.owners .method = draft.owners .method)
    (hproperties : next.properties = draft.properties) (hevents : next.events = draft.events) :
    draft.Takes next kind none answer := by
  refine takes_none ?_
  cases kind with
  | field => rw [owners, owners, hfields]
  | method => exact hmethods
  | property => rw [owners, owners, hproperties]
  | event => rw [owners, owners, hevents]

/-- A member behind all others of its kind. -/
theorem takes_push {α : Type} {members : Array α} {ownerOf : α → Nat} {owner : Nat}
    (hlast : ∀ last ∈ members.back?.map ownerOf, last ≤ owner)
    (hdraft : draft.owners kind = members.toList.map ownerOf)
    (hnext : next.owners kind = draft.owners kind ++ [owner]) :
    draft.Takes next kind (some owner) (.row (members.size + 1)) := by
  refine ⟨hnext, ?_, ?_⟩
  · rintro owner -
    rw [hdraft, List.length_map, Array.length_toList]
  · rintro _ ⟨⟩ last hmem
    rw [hdraft, List.getLast?_map, Array.getLast?_toList] at hmem
    exact hlast last hmem

theorem takes_changeMethod {rid : Nat} {change : MethodDraft → MethodDraft} {done : Unit}
    (hrun : changeMethod rid change draft = .ok (done, next))
    (hsame : ∀ method, (change method).owner = method.owner) :
    draft.Takes next kind none answer := by
  obtain ⟨-, rfl⟩ := Drafting.eq_of_ok hrun (changeMethod_apply ..)
  split
  · exact takes_none rfl
  · exact takes_none_of_same rfl (map_methods_modify hsame draft.methods (rid - 1)) rfl rfl

theorem takes_addTypeRefIn {scope token : Token} {nameSpace name : String}
    (hrun : addTypeRefIn scope nameSpace name draft = .ok (token, next)) :
    draft.Takes next kind none answer := by
  obtain ⟨-, rfl⟩ := Drafting.eq_of_ok hrun (addTypeRefIn_apply ..)
  exact takes_none_of_same rfl rfl rfl rfl

theorem takes_addType {flags : Nat} {nameSpace name : String} {base : Token} {rid : Nat}
    (hrun : addType flags nameSpace name base draft = .ok (rid, next)) :
    draft.Takes next kind none answer := by
  obtain ⟨-, rfl⟩ := Drafting.eq_of_ok hrun (addType_apply ..)
  exact takes_none_of_same rfl rfl rfl rfl

/-- **A step gives a member the next row of its kind, and it refuses one whose owner is before the
    last one.** -/
theorem takes_run {step : DraftStep} (hrun : step.run draft = .ok (answer, next))
    (kind : MemberKind) : draft.Takes next kind (step.owner? kind) answer := by
  cases step with
  | withoutAssembly | implement type interface | implementMethod owner body declaration
      | getter rid accessor | eventAccessor rid accessor semantics =>
    obtain ⟨-, rfl⟩ := Prod.mk.inj (Except.ok.inj hrun)
    exact takes_none_of_same rfl rfl rfl rfl
  | assemblyRef name version key flags =>
    obtain ⟨token, hadd, -⟩ := Drafting.map_eq_ok hrun
    obtain ⟨-, rfl⟩ := Drafting.eq_of_ok hadd (addAssemblyRef_apply ..)
    exact takes_none_of_same rfl rfl rfl rfl
  | typeRef nameSpace name =>
    obtain ⟨token, hadd, -⟩ := Drafting.map_eq_ok hrun
    obtain ⟨scope, middle, hframework, href⟩ := Drafting.bind_eq_ok hadd
    have howners : middle.owners kind = draft.owners kind := by
      rcases frameworkRef_eq_ok hframework with ⟨-, rfl⟩ | ⟨-, added, version, hfirst, rfl⟩
      · rfl
      · obtain ⟨-, rfl⟩ := Drafting.eq_of_ok hfirst (addAssemblyRef_apply ..)
        cases kind <;> rfl
    refine takes_none (Eq.trans ?_ howners)
    obtain ⟨-, rfl⟩ := Drafting.eq_of_ok href (addTypeRefIn_apply ..)
    cases kind <;> rfl
  | nestedTypeRef parent name =>
    obtain ⟨token, hadd, -⟩ := Drafting.map_eq_ok hrun
    exact takes_addTypeRefIn hadd
  | memberRef parent name signature =>
    obtain ⟨token, hadd, -⟩ := Drafting.map_eq_ok hrun
    obtain ⟨-, rfl⟩ := Drafting.eq_of_ok hadd (addMemberRef_apply ..)
    exact takes_none_of_same rfl rfl rfl rfl
  | typeSpec signature =>
    obtain ⟨token, hadd, -⟩ := Drafting.map_eq_ok hrun
    obtain ⟨-, rfl⟩ := Drafting.eq_of_ok hadd (addTypeSpec_apply ..)
    exact takes_none_of_same rfl rfl rfl rfl
  | publicClass nameSpace name base | publicInterface nameSpace name =>
    obtain ⟨rid, hadd, -⟩ := Drafting.map_eq_ok hrun
    exact takes_addType hadd
  | nestedClass enclosing name base =>
    obtain ⟨rid, hadd, -⟩ := Drafting.map_eq_ok hrun
    obtain ⟨-, rfl⟩ := Drafting.eq_of_ok hadd (addNestedClass_apply ..)
    exact takes_none_of_same rfl rfl rfl rfl
  | customAttribute parent constructor value =>
    obtain ⟨_, hadd, -⟩ := Drafting.map_eq_ok hrun
    obtain ⟨-, rfl⟩ := Drafting.eq_of_ok hadd (addAttribute_apply ..)
    exact takes_none_of_same rfl rfl rfl rfl
  | methodFlags rid flags | implFlags rid flags | catchType rid type =>
    obtain ⟨_, hchange, -⟩ := Drafting.map_eq_ok hrun
    exact takes_changeMethod hchange fun _ => rfl
  | field owner name signature =>
    obtain ⟨rid, hadd, rfl⟩ := Drafting.map_eq_ok hrun
    obtain ⟨hlast, rfl, rfl⟩ := addField_eq_ok hadd
    cases kind with
    | field => exact takes_push hlast rfl (by simp [owners])
    | _ => exact takes_none rfl
  | method owner name signature code =>
    obtain ⟨rid, hadd, rfl⟩ := Drafting.map_eq_ok hrun
    obtain ⟨hlast, rfl, rfl⟩ := addMethod_eq_ok hadd
    cases kind with
    | method => exact takes_push hlast rfl (by simp [owners])
    | _ => exact takes_none rfl
  | property owner name signature =>
    obtain ⟨rid, hadd, rfl⟩ := Drafting.map_eq_ok hrun
    obtain ⟨hlast, rfl, rfl⟩ := addProperty_eq_ok hadd
    cases kind with
    | property => exact takes_push hlast rfl (by simp [owners])
    | _ => exact takes_none rfl
  | event owner name type =>
    obtain ⟨rid, hadd, rfl⟩ := Drafting.map_eq_ok hrun
    obtain ⟨hlast, rfl, rfl⟩ := addEvent_eq_ok hadd
    cases kind with
    | event => exact takes_push hlast rfl (by simp [owners])
    | _ => exact takes_none rfl

/-! ## Whole modules -/

theorem Takes.pairwise {owner? : Option Nat} (h : draft.Takes next kind owner? answer)
    (hordered : (draft.owners kind).Pairwise (· ≤ ·)) : (next.owners kind).Pairwise (· ≤ ·) := by
  rw [h.owners]
  cases owner? with
  | none => rwa [Option.toList_none, List.append_nil]
  | some owner => exact pairwise_concat hordered (h.ordered owner rfl)

theorem rowsAdded_cons {step : DraftStep} (h : draft.Takes next kind (step.owner? kind) answer)
    (type : Nat) (steps : List DraftStep) (answers : List DraftAnswer) :
    DraftStep.rowsAdded kind type (step :: steps) (answer :: answers) =
      rowsOwned type ((draft.owners kind).length + 1) (step.owner? kind).toList ++
        DraftStep.rowsAdded kind type steps answers := by
  cases howner : step.owner? kind with
  | none => cases answer <;> simp [DraftStep.rowsAdded, howner, rowsOwned]
  | some owner =>
    rw [h.answers owner howner, DraftStep.rowsAdded, howner, Option.toList_some, rowsOwned]
    by_cases htype : owner = type
    · rw [if_pos (congrArg some htype), if_pos htype]
      rfl
    · rw [if_neg fun hsome => htype (Option.some.inj hsome), if_neg htype]
      rfl

/-- **Whatever steps write a module, its members stand in the order of their types, and the rows
    that were given for the members of a type are those that it owns.** -/
theorem owners_runAll (kind : MemberKind) {steps : List DraftStep} {answers : List DraftAnswer}
    (hrun : DraftStep.runAll steps draft = .ok (answers, next))
    (hordered : (draft.owners kind).Pairwise (· ≤ ·)) :
    (next.owners kind).Pairwise (· ≤ ·) ∧
      next.owners kind = draft.owners kind ++ steps.filterMap (DraftStep.owner? kind) ∧
      ∀ type, DraftStep.rowsAdded kind type steps answers = rowsOwned type
        ((draft.owners kind).length + 1) (steps.filterMap (DraftStep.owner? kind)) := by
  induction steps generalizing draft answers with
  | nil =>
    obtain ⟨rfl, rfl⟩ := DraftStep.runAll_nil hrun
    exact ⟨hordered, (List.append_nil _).symm, fun _ => rfl⟩
  | cons step steps ih =>
    obtain ⟨answer, middle, rest, hstep, hsteps, rfl⟩ := DraftStep.runAll_cons hrun
    have htakes := takes_run hstep kind
    obtain ⟨hpairwise, howners, hadded⟩ := ih hsteps (htakes.pairwise hordered)
    have hsplit : (step :: steps).filterMap (DraftStep.owner? kind) =
        (step.owner? kind).toList ++ steps.filterMap (DraftStep.owner? kind) := by
      rw [List.filterMap_cons]
      cases step.owner? kind <;> rfl
    refine ⟨hpairwise, ?_, fun type => ?_⟩
    · rw [howners, htakes.owners, hsplit, List.append_assoc]
    · rw [rowsAdded_cons htakes, hadded, hsplit, rowsOwned_append, htakes.owners,
        List.length_append, Nat.add_right_comm]

end ModuleDraft

end ApiCensus
