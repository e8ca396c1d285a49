/-
  Where one builder reads a signature to its end, others do too.

  * `TypeBuilder.NeverFails`: whatever shape a type has, building it ends well.
  * `Decoding.Mirrors`: where one reading ends well, another one does at the same place.
  * `Signature.mirrors_typeWithin`: where any builder reads a type, a builder that never fails
    reads one from the same bytes; `exists_tree_of_type` is so for trees.
-/
import ApiCensus.Proofs.Attempt
import ApiCensus.Signature.Decoder

namespace ApiCensus

open Attempt Signature Signature.Decoding

variable {σ τ α α' β β' γ γ' : Type}

/-- The step ends well in every state. -/
def Attempt.NeverFails (step : Attempt τ α) : Prop :=
  ∀ t, ∃ a t', step t = (.ok a, t')

/-- Whatever shape a type has, building it ends well. -/
structure TypeBuilder.NeverFails (builder : TypeBuilder τ α) : Prop where
  primitive : ∀ type, (builder.primitive type).NeverFails
  definition : ∀ token form, (builder.definition token form).NeverFails
  reference : ∀ token form, (builder.reference token form).NeverFails
  specification : ∀ token form, (builder.specification token form).NeverFails
  vector : ∀ element, (builder.vector element).NeverFails
  array : ∀ element shape, (builder.array element shape).NeverFails
  byReference : ∀ element, (builder.byReference element).NeverFails
  pointer : ∀ element, (builder.pointer element).NeverFails
  pinned : ∀ element, (builder.pinned element).NeverFails
  instantiation : ∀ generic arguments, (builder.instantiation generic arguments).NeverFails
  typeParameter : ∀ index, (builder.typeParameter index).NeverFails
  methodParameter : ∀ index, (builder.methodParameter index).NeverFails
  modified : ∀ modifier unmodified required,
    (builder.modified modifier unmodified required).NeverFails
  functionPointer : ∀ signature, (builder.functionPointer signature).NeverFails

theorem Attempt.neverFails_pure (a : α) : NeverFails (pure a : Attempt τ α) :=
  fun t => ⟨a, t, rfl⟩

theorem TypeBuilder.neverFails_tree : NeverFails (tree : TypeBuilder τ SignatureType) := by
  constructor <;> intros <;> exact neverFails_pure _

namespace Signature

/-- Where the first reading ends well, so does the second one, at the same place and with a
    related answer. -/
def Decoding.Mirrors (S : β → β' → Prop) (decoding : Decoding σ β) (other : Decoding τ β') :
    Prop :=
  ∀ start b stop, decoding start = (.ok b, stop) →
    ∀ t, ∃ b' t', other (start.1, t) = (.ok b', (stop.1, t')) ∧ S b b'

/-- Nothing is said about two answers. -/
abbrev Unrelated (_ : β) (_ : β') : Prop := True

section
variable {S : β → β' → Prop} {decoding : Decoding σ β} {other : Decoding τ β'}

theorem mirrors_pure {b : β} {b' : β'} (h : S b b') :
    Decoding.Mirrors S (pure b : Decoding σ β) (pure b' : Decoding τ β') := by
  rintro start _ _ ⟨⟩ t
  exact ⟨b', t, rfl, h⟩

theorem mirrors_of_throw (fault : Fault) :
    Decoding.Mirrors S (throw fault : Decoding σ β) other :=
  fun _ _ _ h => absurd (congrArg Prod.fst h) (by simp)

theorem mirrors_read (step : Attempt Cursor β) :
    Decoding.Mirrors Eq (read step : Decoding σ β) (read step : Decoding τ β) := by
  intro start b stop h t
  obtain ⟨hresult, hstop⟩ := Prod.mk.inj h
  refine ⟨b, t, ?_, rfl⟩
  rw [← hstop, ← hresult]
  rfl

theorem mirrors_build {step : Attempt σ β} {step' : Attempt τ β'} (h : step'.NeverFails) :
    Decoding.Mirrors Unrelated (build step) (build step') := by
  intro start b stop hb t
  obtain ⟨b', t', hstep⟩ := h t
  obtain ⟨-, hstop⟩ := Prod.mk.inj hb
  refine ⟨b', t', ?_, trivial⟩
  rw [← hstop, build, onPart, hstep]

theorem Decoding.Mirrors.bind {S' : γ → γ' → Prop} {next : β → Decoding σ γ}
    {next' : β' → Decoding τ γ'} (hd : decoding.Mirrors S other)
    (hn : ∀ b b', S b b' → Decoding.Mirrors S' (next b) (next' b')) :
    Decoding.Mirrors S' (decoding >>= next) (other >>= next') := by
  intro start c stop h t
  obtain ⟨b, middle, hb, hc⟩ := bind_eq_ok h
  obtain ⟨b', t', hb', hS⟩ := hd start b middle hb t
  obtain ⟨c', t'', hc', hS'⟩ := hn b b' hS middle c stop hc t'
  exact ⟨c', t'', (bind_apply_ok hb').trans hc', hS'⟩

/-- What is read is the same for both readings. -/
theorem Decoding.Mirrors.read_bind {S : γ → γ' → Prop} {step : Attempt Cursor β}
    {next : β → Decoding σ γ} {next' : β → Decoding τ γ'}
    (h : ∀ b, Decoding.Mirrors S (next b) (next' b)) :
    Decoding.Mirrors S (read step >>= next) (read step >>= next') := by
  refine Decoding.Mirrors.bind (mirrors_read step) ?_
  rintro b _ rfl
  exact h b

theorem Decoding.Mirrors.ite {c : Prop} [Decidable c] {decoding₂ : Decoding σ β}
    {other₂ : Decoding τ β'} (h : c → decoding.Mirrors S other)
    (h₂ : ¬ c → decoding₂.Mirrors S other₂) :
    Decoding.Mirrors S (if c then decoding else decoding₂) (if c then other else other₂) := by
  by_cases hc : c
  · rw [if_pos hc, if_pos hc]
    exact h hc
  · rw [if_neg hc, if_neg hc]
    exact h₂ hc

theorem mirrors_repeated (h : decoding.Mirrors Unrelated other) (count : Nat) :
    Decoding.Mirrors Unrelated (repeated decoding count) (repeated other count) := by
  induction count with
  | zero => exact mirrors_pure trivial
  | succ count ih =>
    exact h.bind fun _ _ _ => ih.bind fun _ _ _ => mirrors_pure trivial

end

section
variable {inner : Decoding σ α} {inner' : Decoding τ α'}

/-- A parameter and those behind it, of which the mark is told alike. -/
theorem mirrors_parameter_cons (hi : inner.Mirrors Unrelated inner') {index left : Nat}
    {mark : Option Nat}
    (hr : Decoding.Mirrors (fun listed listed' => listed.2 = listed'.2)
      (parameters inner index mark left) (parameters inner' index mark left)) :
    Decoding.Mirrors (fun listed listed' => listed.2 = listed'.2)
      (inner >>= fun parameter => parameters inner index mark left >>= fun listed =>
        pure (parameter :: listed.1, listed.2))
      (inner' >>= fun parameter => parameters inner' index mark left >>= fun listed =>
        pure (parameter :: listed.1, listed.2)) :=
  hi.bind fun _ _ _ => hr.bind fun _ _ h => mirrors_pure h

theorem mirrors_parameters (hi : inner.Mirrors Unrelated inner') (index : Nat)
    (mark : Option Nat) (left : Nat) :
    Decoding.Mirrors (fun listed listed' => listed.2 = listed'.2)
      (parameters inner index mark left) (parameters inner' index mark left) := by
  induction left generalizing index mark with
  | zero => exact mirrors_pure rfl
  | succ left ih =>
    refine Decoding.Mirrors.read_bind fun next => ?_
    refine Decoding.Mirrors.ite (fun _ => .ite (fun _ => mirrors_of_throw _) fun _ => ?_) fun _ => ?_
    · refine Decoding.Mirrors.read_bind fun _ => ?_
      exact mirrors_parameter_cons hi (ih (index + 1) (some index))
    · exact mirrors_parameter_cons hi (ih (index + 1) mark)

theorem mirrors_methodOf (hi : inner.Mirrors Unrelated inner') :
    Decoding.Mirrors Unrelated (methodOf inner) (methodOf inner') := by
  have hrest : ∀ header : Header, ∀ genericCount, Decoding.Mirrors Unrelated
      (read Compressed.number >>= fun count => inner >>= fun returnType =>
        parameters inner 0 none count >>= fun listed =>
          pure (⟨header, genericCount, listed.2.getD count, returnType, listed.1⟩ :
            MethodSignature α))
      (read Compressed.number >>= fun count => inner' >>= fun returnType =>
        parameters inner' 0 none count >>= fun listed =>
          pure (⟨header, genericCount, listed.2.getD count, returnType, listed.1⟩ :
            MethodSignature α')) := by
    intro header genericCount
    refine Decoding.Mirrors.read_bind fun count => hi.bind fun _ _ _ => ?_
    exact (mirrors_parameters hi 0 none count).bind fun _ _ _ => mirrors_pure trivial
  refine Decoding.Mirrors.read_bind fun header => ?_
  refine Decoding.Mirrors.ite (fun _ => .ite (fun _ => ?_) fun _ => ?_) fun _ => mirrors_of_throw _
  · exact Decoding.Mirrors.read_bind fun genericCount => hrest header genericCount
  · exact hrest header 0

end

section
variable {builder : TypeBuilder σ α} {builder' : TypeBuilder τ α'}

theorem mirrors_nominal (hb : builder'.NeverFails) (form : NominalForm) :
    Decoding.Mirrors Unrelated (nominal builder form) (nominal builder' form) := by
  refine Decoding.Mirrors.read_bind fun token => ?_
  generalize token.table? = table
  split
  · exact mirrors_build (hb.definition token form)
  · exact mirrors_build (hb.reference token form)
  · exact mirrors_build (hb.specification token form)
  · exact mirrors_of_throw _

theorem mirrors_typeFrom (hb : builder'.NeverFails) {inner : Decoding σ α}
    {inner' : Decoding τ α'} (hi : inner.Mirrors Unrelated inner') (element : Element) :
    Decoding.Mirrors Unrelated (typeFrom builder inner element)
      (typeFrom builder' inner' element) := by
  cases element with
  | primitive type => exact mirrors_build (hb.primitive type)
  | classType => exact mirrors_nominal hb .classType
  | valueType => exact mirrors_nominal hb .valueType
  | pointer => exact hi.bind fun _ element _ => mirrors_build (hb.pointer element)
  | byReference => exact hi.bind fun _ element _ => mirrors_build (hb.byReference element)
  | pinned => exact hi.bind fun _ element _ => mirrors_build (hb.pinned element)
  | vector => exact hi.bind fun _ element _ => mirrors_build (hb.vector element)
  | array =>
    exact hi.bind fun _ element _ => .read_bind fun shape => mirrors_build (hb.array element shape)
  | instantiation =>
    refine hi.bind fun _ generic _ => .read_bind fun count => ?_
    refine Decoding.Mirrors.ite (fun _ => mirrors_of_throw _) fun _ => ?_
    exact (mirrors_repeated hi count).bind fun _ arguments _ =>
      mirrors_build (hb.instantiation generic arguments)
  | typeParameter => exact .read_bind fun index => mirrors_build (hb.typeParameter index)
  | methodParameter => exact .read_bind fun index => mirrors_build (hb.methodParameter index)
  | modifier required =>
    exact (mirrors_nominal hb .unstated).bind fun _ modifier _ => hi.bind fun _ unmodified _ =>
      mirrors_build (hb.modified modifier unmodified required)
  | functionPointer =>
    exact (mirrors_methodOf hi).bind fun _ signature _ =>
      mirrors_build (hb.functionPointer signature)

theorem mirrors_typeWithin (hb : builder'.NeverFails) (limit : Nat) :
    Decoding.Mirrors Unrelated (typeWithin builder limit) (typeWithin builder' limit) := by
  induction limit with
  | zero => exact mirrors_of_throw _
  | succ limit ih =>
    refine Decoding.Mirrors.read_bind fun code => ?_
    split
    · exact mirrors_of_throw _
    · exact mirrors_typeFrom hb ih _

end

/-- The tree of a type that any builder has read. -/
theorem exists_tree_of_type {builder : TypeBuilder σ α} {start stop : Cursor × σ} {a : α}
    (h : type builder start = (.ok a, stop)) :
    ∃ tree, type TypeBuilder.tree (start.1, ()) = (.ok tree, (stop.1, ())) := by
  have hmirrors : Decoding.Mirrors Unrelated (type builder)
      (type TypeBuilder.tree : Decoding Unit SignatureType) :=
    mirrors_typeWithin TypeBuilder.neverFails_tree maxDepth
  obtain ⟨tree, _, htree, -⟩ := hmirrors start a stop h ()
  exact ⟨tree, htree⟩

end Signature

end ApiCensus
