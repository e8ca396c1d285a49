/-
  Visiting the named arguments of an attribute.

  * `EnumLookup.Reached`: what a look-up may remember after some questions.
  * `Decoding.Beside`: a reading that does the same whether or not something is kept beside its
    state.
  * `Assembly.beside_namedArgument` and its companions: the readers of attribute values are such
    readings.
  * `Assembly.eachNamedArgument_keeps`: a visit sees only arguments that the list of named
    arguments has.
-/
import ApiCensus.Attribute.Arguments
import ApiCensus.Proofs.Attempt

namespace ApiCensus

open Attempt Signature Signature.Decoding

variable {σ τ α β : Type}

/-- What the look-up may remember after some questions. -/
inductive EnumLookup.Reached (lookup : EnumLookup σ) (start : σ) : σ → Prop
  | start : Reached lookup start start
  | asked {state : σ} (name : EnumName) :
    Reached lookup start state → Reached lookup start (lookup name state).2

theorem EnumLookup.Reached.trans {lookup : EnumLookup σ} {first second third : σ}
    (h : lookup.Reached first second) (h' : lookup.Reached second third) :
    lookup.Reached first third := by
  induction h' with
  | start => exact h
  | asked name _ ih => exact .asked name ih

/-! ## Something kept beside the state -/

namespace Signature.Decoding

/-- Both readings do the same, and the first leaves alone what is kept beside the state. On the
    way the look-up may be asked. -/
def Beside (lookup : EnumLookup σ) (beside : Decoding (σ × τ) α) (alone : Decoding σ α) : Prop :=
  ∀ cursor state kept, ∃ result cursor' state', lookup.Reached state state' ∧
    alone (cursor, state) = (result, (cursor', state')) ∧
    beside (cursor, (state, kept)) = (result, (cursor', (state', kept)))

section
variable {lookup : EnumLookup σ}

theorem Beside.pure (a : α) :
    Beside lookup (Pure.pure a : Decoding (σ × τ) α) (Pure.pure a) :=
  fun cursor state _ => ⟨.ok a, cursor, state, .start, rfl, rfl⟩

theorem Beside.throw (fault : Fault) :
    Beside lookup (MonadExcept.throw fault : Decoding (σ × τ) α) (MonadExcept.throw fault) :=
  fun cursor state _ => ⟨.error fault, cursor, state, .start, rfl, rfl⟩

theorem Beside.ofExcept (result : Except Fault α) :
    Beside lookup (liftM result : Decoding (σ × τ) α) (liftM result) :=
  fun cursor state _ => ⟨result, cursor, state, .start, rfl, rfl⟩

theorem Beside.read (step : Attempt Cursor α) :
    Beside lookup (Decoding.read step : Decoding (σ × τ) α) (Decoding.read step) :=
  fun cursor state _ => ⟨(step cursor).1, (step cursor).2, state, .start, rfl, rfl⟩

/-- A question to the look-up. -/
theorem Beside.ask (name : EnumName) :
    Beside lookup
      (build (ExceptT.lift (Assembly.lookupBeside lookup name)) :
        Decoding (σ × τ) (Option Primitive))
      (build (ExceptT.lift (lookup name))) :=
  fun cursor state _ =>
    ⟨.ok (lookup name state).1, cursor, (lookup name state).2, .asked name .start, rfl, rfl⟩

theorem Beside.bind {d : Decoding (σ × τ) α} {d' : Decoding σ α} {f : α → Decoding (σ × τ) β}
    {f' : α → Decoding σ β} (hd : Beside lookup d d') (hf : ∀ a, Beside lookup (f a) (f' a)) :
    Beside lookup (d >>= f) (d' >>= f') := by
  intro cursor state kept
  obtain ⟨result, cursor₁, state₁, hr, ha, hb⟩ := hd cursor state kept
  cases result with
  | error fault =>
    exact ⟨.error fault, cursor₁, state₁, hr, bind_apply_error ha, bind_apply_error hb⟩
  | ok a =>
    obtain ⟨result', cursor₂, state₂, hr', ha', hb'⟩ := hf a cursor₁ state₁ kept
    refine ⟨result', cursor₂, state₂, hr.trans hr', ?_, ?_⟩
    · rw [bind_apply_ok ha, ha']
    · rw [bind_apply_ok hb, hb']

theorem Beside.ite {c : Prop} [Decidable c] {d e : Decoding (σ × τ) α} {d' e' : Decoding σ α}
    (hd : c → Beside lookup d d') (he : ¬ c → Beside lookup e e') :
    Beside lookup (if c then d else e) (if c then d' else e') := by
  by_cases hc : c
  · rw [if_pos hc, if_pos hc]
    exact hd hc
  · rw [if_neg hc, if_neg hc]
    exact he hc

theorem Beside.map {d : Decoding (σ × τ) α} {d' : Decoding σ α} (hd : Beside lookup d d')
    (f : α → β) : Beside lookup (f <$> d) (f <$> d') :=
  hd.bind fun a => Beside.pure (f a)

/-- What depends on the place of the reading only. -/
theorem Beside.place {f : Cursor → Decoding (σ × τ) β} {g : Cursor → Decoding σ β}
    (hf : ∀ cursor, Beside lookup (f cursor) (g cursor)) :
    Beside lookup (get >>= fun place => f place.1) (get >>= fun place => g place.1) := by
  intro cursor state kept
  obtain ⟨result, cursor', state', hr, ha, hb⟩ := hf cursor cursor state kept
  refine ⟨result, cursor', state', hr, ?_, ?_⟩
  · rw [bind_apply_ok (get_apply _), ha]
  · rw [bind_apply_ok (get_apply _), hb]

theorem Beside.aside {d : Decoding (σ × τ) α} {d' : Decoding σ α} (hd : Beside lookup d d')
    (cursor : Cursor) : Beside lookup (aside cursor d) (aside cursor d') := by
  intro here state kept
  obtain ⟨result, cursor', state', hr, ha, hb⟩ := hd cursor state kept
  cases result with
  | error fault =>
    exact ⟨.error fault, here, state', hr, by rw [Decoding.aside, ha], by rw [Decoding.aside, hb]⟩
  | ok a =>
    exact ⟨.ok (a, cursor'), here, state', hr, by rw [Decoding.aside, ha],
      by rw [Decoding.aside, hb]⟩

/-- What questions to the look-up do not change is kept. -/
theorem Beside.keeps {d : Decoding (σ × τ) α} {d' : Decoding σ α} {P : σ × τ → Prop}
    (hd : Beside lookup d d')
    (hl : ∀ name state kept, P (state, kept) → P ((lookup name state).2, kept)) :
    Keeps (fun place => P place.2) d := by
  rintro ⟨cursor, state, kept⟩ hp
  obtain ⟨result, cursor', state', hr, -, hb⟩ := hd cursor state kept
  rw [hb]
  clear hb
  show P (state', kept)
  induction hr with
  | start => exact hp
  | asked name _ ih => exact hl name _ _ ih

end

end Signature.Decoding

/-! ## The readers of attribute values -/

namespace Assembly

variable (assembly : Assembly) (lookup : EnumLookup σ)

theorem beside_foreignKind (type : TypeRefRow) :
    Beside lookup (assembly.foreignKind (lookupBeside (τ := τ) lookup) type)
      (assembly.foreignKind lookup type) := by
  refine (Beside.ofExcept _).bind fun name => ?_
  cases name with
  | none => exact Beside.pure none
  | some name => exact (Beside.ask name).bind fun _ => Beside.pure _

theorem beside_referencedKind (type : TypeRefRow) :
    Beside lookup (assembly.referencedKind (lookupBeside (τ := τ) lookup) type)
      (assembly.referencedKind lookup type) := by
  have hnamed : ∀ isType : Bool, Beside lookup
      (if isType then pure (some .typeName)
        else assembly.foreignKind (lookupBeside (τ := τ) lookup) type)
      (if isType then pure (some .typeName) else assembly.foreignKind lookup type) :=
    fun isType => Beside.ite (fun _ => Beside.pure _) fun _ =>
      assembly.beside_foreignKind lookup type
  refine (Beside.ofExcept _).bind fun nameSpace => Beside.ite (fun _ => ?_) fun _ => ?_
  · exact (Beside.ofExcept _).bind fun name => (Beside.pure _).bind hnamed
  · exact (Beside.pure _).bind hnamed

theorem beside_nominalKind (token : Token) :
    Beside lookup (assembly.nominalKind (lookupBeside (τ := τ) lookup) token)
      (assembly.nominalKind lookup token) := by
  unfold nominalKind
  split
  · exact (Beside.ofExcept _).bind fun type => assembly.beside_referencedKind lookup type
  · exact (Beside.ofExcept _).bind fun _ => (Beside.ofExcept _).bind fun _ => Beside.pure _
  · exact Beside.pure none

variable {assembly lookup}

theorem beside_parameterBy {onVector onGeneric : Decoding (σ × τ) (Option ArgumentType)}
    {onVector' onGeneric' : Decoding σ (Option ArgumentType)}
    (hv : Beside lookup onVector onVector') (hg : Beside lookup onGeneric onGeneric') :
    Beside lookup (assembly.parameterBy (lookupBeside lookup) onVector onGeneric)
      (assembly.parameterBy lookup onVector' onGeneric') := by
  refine (Beside.read _).bind fun code => ?_
  split
  · exact Beside.pure _
  · split
    · exact Beside.pure _
    · exact (Beside.read _).bind fun token =>
        (assembly.beside_nominalKind lookup token).bind fun _ => Beside.pure _
    · exact (Beside.read _).bind fun token =>
        (assembly.beside_nominalKind lookup token).bind fun _ => Beside.pure _
    · exact hv
    · exact hg
    · exact Beside.pure none

theorem beside_vectorOf {element : Decoding (σ × τ) (Option ArgumentType)}
    {element' : Decoding σ (Option ArgumentType)} (he : Beside lookup element element') :
    Beside lookup (vectorOf element) (vectorOf element') := by
  refine he.bind fun type => ?_
  split <;> exact Beside.pure _

theorem beside_argumentOf {argument : Decoding (σ × τ) (Option ArgumentType)}
    {argument' : Decoding σ (Option ArgumentType)} (context : Cursor)
    (ha : Beside lookup argument argument') :
    Beside lookup (argumentOf context argument) (argumentOf context argument') := by
  refine ((Beside.read _).aside context).bind fun (count, _) => ?_
  refine (Beside.read _).bind fun index => Beside.ite (fun _ => Beside.throw _) fun _ => ?_
  refine ((Beside.read _).aside _).bind fun (_, _) => ?_
  exact (ha.aside _).bind fun (_, _) => Beside.pure _

variable (assembly lookup)

theorem beside_elementType :
    Beside lookup (assembly.elementType (lookupBeside (τ := τ) lookup))
      (assembly.elementType lookup) :=
  beside_parameterBy (Beside.throw _) (Beside.throw _)

theorem beside_plainType :
    Beside lookup (assembly.plainType (lookupBeside (τ := τ) lookup))
      (assembly.plainType lookup) :=
  beside_parameterBy (beside_vectorOf (assembly.beside_elementType lookup)) (Beside.throw _)

theorem beside_elementTypeWithin (context : Cursor) :
    Beside lookup (assembly.elementTypeWithin (lookupBeside (τ := τ) lookup) context)
      (assembly.elementTypeWithin lookup context) :=
  beside_parameterBy (Beside.throw _)
    (beside_argumentOf context (assembly.beside_elementType lookup))

theorem beside_typeWithin (context : Cursor) :
    Beside lookup (assembly.typeWithin (lookupBeside (τ := τ) lookup) context)
      (assembly.typeWithin lookup context) :=
  beside_parameterBy (beside_vectorOf (assembly.beside_elementTypeWithin lookup context))
    (beside_argumentOf context (assembly.beside_plainType lookup))

theorem beside_parameterType (context : Option Cursor) :
    Beside lookup (assembly.parameterType (lookupBeside (τ := τ) lookup) context)
      (assembly.parameterType lookup context) := by
  cases context with
  | none => exact assembly.beside_plainType lookup
  | some context => exact assembly.beside_typeWithin lookup context

theorem beside_kindOfTag (tag : UInt8) :
    Beside lookup (kindOfTag (lookupBeside (τ := τ) lookup) tag) (kindOfTag lookup tag) := by
  unfold kindOfTag
  split
  · exact Beside.pure _
  · split
    · exact Beside.pure _
    · exact Beside.pure _
    · refine (Beside.read _).bind fun text => ?_
      split
      · exact (Beside.ask _).bind fun _ => Beside.pure _
      · exact Beside.pure _
    · exact Beside.throw _

theorem beside_taggedType :
    Beside lookup (taggedType (lookupBeside (τ := τ) lookup)) (taggedType lookup) := by
  refine (Beside.read _).bind fun tag => Beside.ite (fun _ => ?_) fun _ => ?_
  · refine (Beside.read _).bind fun tag => Beside.ite (fun _ => Beside.throw _) fun _ => ?_
    exact (beside_kindOfTag lookup tag).map _
  · exact (beside_kindOfTag lookup tag).map _

theorem beside_skipPlain (kind : ElementKind) :
    Beside lookup (skipPlain kind : Decoding (σ × τ) Bool) (skipPlain kind) := by
  unfold skipPlain
  split
  · exact (Beside.read _).bind fun _ => Beside.pure true
  · exact (Beside.read _).bind fun _ => Beside.pure true
  · split
    · exact (Beside.read _).bind fun _ => Beside.pure true
    · exact Beside.pure false

variable {lookup} in
theorem beside_skipAll {step : Decoding (σ × τ) Bool} {step' : Decoding σ Bool}
    (hs : Beside lookup step step') (count : Nat) :
    Beside lookup (skipAll step count) (skipAll step' count) := by
  induction count with
  | zero => exact Beside.pure true
  | succ count ih =>
    exact hs.bind fun known => Beside.ite (fun _ => ih) fun _ => Beside.pure false

variable {lookup} in
theorem beside_skipVector {element : Decoding (σ × τ) Bool} {element' : Decoding σ Bool}
    (he : Beside lookup element element') :
    Beside lookup (skipVector element) (skipVector element') :=
  (Beside.read _).bind fun _ => Beside.ite (fun _ => Beside.throw _) fun _ => beside_skipAll he _

theorem beside_skipElement (boxes : Nat) (kind : ElementKind) :
    Beside lookup (skipElement (lookupBeside (τ := τ) lookup) boxes kind)
      (skipElement lookup boxes kind) := by
  induction boxes generalizing kind with
  | zero =>
    unfold skipElement
    split
    · exact Beside.throw _
    · exact beside_skipPlain lookup _
  | succ boxes ih =>
    unfold skipElement
    split
    · refine (beside_taggedType lookup).bind fun type => ?_
      split
      · exact Beside.throw _
      · exact beside_skipPlain lookup _
      · exact beside_skipVector (ih _)
    · exact beside_skipPlain lookup _

theorem beside_skipArgument (type : ArgumentType) :
    Beside lookup (skipArgument (lookupBeside (τ := τ) lookup) type)
      (skipArgument lookup type) := by
  cases type with
  | element kind =>
    exact Beside.place (f := fun cursor => skipElement _ (cursor.remaining + 1) kind)
      fun cursor => beside_skipElement lookup _ kind
  | vector kind =>
    exact Beside.place (f := fun cursor => skipVector (skipElement _ (cursor.remaining + 1) kind))
      fun cursor => beside_skipVector (beside_skipElement lookup _ kind)

theorem beside_skipFixed (context : Option Cursor) (count : Nat) (signature : Cursor) :
    Beside lookup (assembly.skipFixed (lookupBeside (τ := τ) lookup) context count signature)
      (assembly.skipFixed lookup context count signature) := by
  induction count generalizing signature with
  | zero => exact Beside.pure true
  | succ count ih =>
    refine ((assembly.beside_parameterType lookup context).aside signature).bind ?_
    rintro ⟨_ | type, signature⟩
    · exact Beside.pure false
    · refine (beside_skipArgument lookup type).bind fun known => ?_
      exact Beside.ite (fun _ => ih signature) fun _ => Beside.pure false

theorem beside_namedCount (row : CustomAttributeRow) (constructor : MemberRefRow)
    (context : Option Cursor) :
    Beside lookup (assembly.namedCount (lookupBeside (τ := τ) lookup) row constructor context)
      (assembly.namedCount lookup row constructor context) := by
  refine (Beside.read _).bind fun prolog => Beside.ite (fun _ => Beside.throw _) fun _ => ?_
  refine (Beside.ofExcept _).bind fun blob => ((Beside.read _).aside _).bind ?_
  rintro ⟨count, signature⟩
  refine (assembly.beside_skipFixed lookup context count signature).bind fun known => ?_
  exact Beside.ite (fun _ => (Beside.read _).map _) fun _ => Beside.pure none

theorem beside_namedArgument :
    Beside lookup (namedArgument (lookupBeside (τ := τ) lookup)) (namedArgument lookup) := by
  have htarget : ∀ tag, Beside lookup (argumentTarget tag : Decoding (σ × τ) ArgumentTarget)
      (argumentTarget tag) := by
    intro tag
    unfold argumentTarget
    split
    · exact Beside.pure _
    · exact Beside.pure _
    · exact Beside.throw _
  refine (Beside.read _).bind fun tag => (htarget tag).bind fun target => ?_
  refine (beside_taggedType lookup).bind fun type => ?_
  refine Beside.ite (fun _ => Beside.pure none) fun _ => (Beside.read _).bind fun name => ?_
  refine (beside_skipArgument lookup type).bind fun known => ?_
  exact Beside.ite (fun _ => Beside.pure _) fun _ => Beside.pure none

/-! ## Visits -/

section
variable {lookup} {P : σ × τ → Prop} {visit : NamedArgument → Attempt (σ × τ) Unit}

/-- Every visit keeps something, so all of them do. -/
theorem visitNamed_keeps
    (hl : ∀ name state kept, P (state, kept) → P ((lookup name state).2, kept))
    (hv : ∀ argument, Keeps P (visit argument)) (count : Nat) :
    Keeps (fun place => P place.2) (visitNamed (lookupBeside lookup) visit count) := by
  induction count with
  | zero => exact Keeps.pure ()
  | succ count ih =>
    refine Keeps.bind ((beside_namedArgument lookup).keeps hl) fun argument => ?_
    cases argument with
    | none => exact Keeps.pure ()
    | some argument =>
      refine Keeps.bind (fun place hp => ?_) fun _ => ih
      exact hv argument place.2 hp

theorem mem_collected {argument : NamedArgument} {found : Array NamedArgument}
    (h : argument ∈ found) (count : Nat) (cursor : Cursor) (state : σ) :
    argument ∈ (visitNamed (lookupBeside lookup) collect count (cursor, (state, found))).2.2.2 := by
  have hk : Keeps (fun place => argument ∈ place.2.2)
      (visitNamed (lookupBeside lookup) collect count) := by
    refine visitNamed_keeps (P := fun place => argument ∈ place.2) (fun _ _ _ hp => hp) ?_ count
    intro other place hp
    exact Array.mem_push.2 (Or.inl hp)
  exact hk (cursor, (state, found)) h

/-- The visits of the collected arguments keep something, so all visits do. -/
theorem visitNamed_keeps_of_collected
    (hl : ∀ name state kept, P (state, kept) → P ((lookup name state).2, kept))
    (hs : ∀ argument place, (visit argument place).2.1 = place.1)
    (count : Nat) (cursor : Cursor) (state : σ) (kept : τ) (found : Array NamedArgument)
    (hv : ∀ argument ∈
        (visitNamed (lookupBeside lookup) collect count (cursor, (state, found))).2.2.2,
      Keeps P (visit argument))
    (hp : P (state, kept)) :
    P (visitNamed (lookupBeside lookup) visit count (cursor, (state, kept))).2.2 := by
  induction count generalizing cursor state kept found with
  | zero => exact hp
  | succ count ih =>
    obtain ⟨result, cursor', state', -, ha, hb⟩ :=
      beside_namedArgument (τ := τ) lookup cursor state kept
    obtain ⟨result', cursor'', state'', -, ha', hb'⟩ :=
      beside_namedArgument (τ := Array NamedArgument) lookup cursor state found
    obtain ⟨rfl, hplace⟩ := Prod.mk.inj (ha'.symm.trans ha)
    obtain ⟨rfl, rfl⟩ := Prod.mk.inj hplace
    have hp' : P (state'', kept) := by
      have hk := (beside_namedArgument lookup).keeps hl (cursor, (state, kept)) hp
      rwa [hb] at hk
    rcases result' with fault | _ | argument
    · rw [visitNamed, bind_apply_error hb]
      exact hp'
    · rw [visitNamed, bind_apply_ok hb]
      exact hp'
    · rw [visitNamed, bind_apply_ok hb'] at hv
      have hmore : ∀ other ∈ (visitNamed (lookupBeside lookup) collect count
          (cursor'', (state'', found.push argument))).2.2.2, Keeps P (visit other) := hv
      have hone : Keeps P (visit argument) := hmore argument (mem_collected (by simp) count _ _)
      have hk := hone (state'', kept) hp'
      have hsame := hs argument (state'', kept)
      rw [visitNamed, bind_apply_ok hb]
      show P ((build (visit argument) >>= fun _ => visitNamed (lookupBeside lookup) visit count)
        (cursor'', (state'', kept))).2.2
      rw [bind_apply, build, onPart]
      rcases hr : visit argument (state'', kept) with ⟨fault | _, state₃, kept₃⟩ <;>
        rw [hr] at hk hsame
      · exact hk
      · obtain rfl : state₃ = state'' := hsame
        exact ih cursor'' state₃ kept₃ _ hmore hk

/-- The same from the first byte of the value of an attribute on. -/
theorem walk_keeps_of_collected (row : CustomAttributeRow) (constructor : MemberRefRow)
    (context : Option Cursor) (cursor : Cursor) {start : σ} {kept : τ}
    (hl : ∀ name state kept, P (state, kept) → P ((lookup name state).2, kept))
    (hs : ∀ argument place, (visit argument place).2.1 = place.1)
    (hv : ∀ argument ∈
        ((do
          match ← assembly.namedCount (lookupBeside lookup) row constructor context with
          | none => pure ()
          | some count => visitNamed (lookupBeside lookup) collect count :
            Decoding (σ × Array NamedArgument) Unit) (cursor, (start, #[]))).2.2.2,
      Keeps P (visit argument))
    (hp : P (start, kept)) :
    P ((do
      match ← assembly.namedCount (lookupBeside lookup) row constructor context with
      | none => pure ()
      | some count => visitNamed (lookupBeside lookup) visit count :
        Decoding (σ × τ) Unit) (cursor, (start, kept))).2.2 := by
  obtain ⟨result, cursor', state', -, ha, hb⟩ :=
    assembly.beside_namedCount (τ := τ) lookup row constructor context cursor start kept
  obtain ⟨result', cursor'', state'', -, ha', hb'⟩ :=
    assembly.beside_namedCount (τ := Array NamedArgument) lookup row constructor context cursor
      start #[]
  obtain ⟨rfl, hplace⟩ := Prod.mk.inj (ha'.symm.trans ha)
  obtain ⟨rfl, rfl⟩ := Prod.mk.inj hplace
  have hp' : P (state'', kept) := by
    have hk := (assembly.beside_namedCount lookup row constructor context).keeps hl
      (cursor, (start, kept)) hp
    rwa [hb] at hk
  rcases result' with fault | _ | count
  · rw [bind_apply_error hb]
    exact hp'
  · rw [bind_apply_ok hb]
    exact hp'
  · rw [bind_apply_ok hb'] at hv
    rw [bind_apply_ok hb]
    exact visitNamed_keeps_of_collected hl hs count cursor'' state'' kept #[] hv hp'

theorem namedArguments_list (row : CustomAttributeRow) (start : σ) :
    (assembly.namedArguments lookup row start).1.1 =
      (assembly.eachNamedArgument (lookupBeside lookup) row collect (start, #[])).2.2.toList := by
  unfold namedArguments
  split <;> rename_i h <;> rw [h]

/-- **A visit of the named arguments of an attribute keeps what the visits of the listed
    arguments keep.** -/
theorem eachNamedArgument_keeps (row : CustomAttributeRow) {start : σ} {kept : τ}
    (hl : ∀ name state kept, P (state, kept) → P ((lookup name state).2, kept))
    (hs : ∀ argument place, (visit argument place).2.1 = place.1)
    (hv : ∀ argument ∈ (assembly.namedArguments lookup row start).1.1, Keeps P (visit argument))
    (hp : P (start, kept)) :
    P (assembly.eachNamedArgument (lookupBeside lookup) row visit (start, kept)).2 := by
  rw [namedArguments_list] at hv
  unfold eachNamedArgument at hv ⊢
  by_cases ht : row.constructor.table = .memberRef
  · rw [if_pos ht] at hv ⊢
    cases hc : assembly.row MemberRefRow row.constructor.row with
    | error fault => exact hp
    | ok constructor =>
      rw [hc, bind_liftM_ok] at hv
      rw [bind_liftM_ok]
      cases hg : assembly.genericContext constructor with
      | error fault => exact hp
      | ok context =>
        rw [hg, bind_liftM_ok] at hv
        rw [bind_liftM_ok]
        cases hb : assembly.blob row.value with
        | error fault => exact hp
        | ok value =>
          rw [hb, bind_liftM_ok] at hv
          rw [bind_liftM_ok]
          exact assembly.walk_keeps_of_collected row constructor context { data := value } hl hs
            (fun argument ha => hv argument (Array.mem_toList_iff.2 ha)) hp
  · rw [if_neg ht]
    exact hp

end

end Assembly

end ApiCensus
