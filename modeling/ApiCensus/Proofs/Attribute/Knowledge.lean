/-
  The named arguments of an attribute, under a look-up and under one that knows more enums.

  * `EnumLookup.Below`: as long as two look-ups are in related states, the second one knows what
    the first one knows.
  * `Decoding.InStep`: two readings pass over the same bytes with the same fault or answer, until
    the first one stops at a width that it does not know.
  * `Assembly.namedArgument_inStep` and its companions: the readers of attribute values do so.
  * `Assembly.eachNamedArgument_ahead`: so the second visit of the named arguments goes as far as
    the first one, or further.
  * `Assembly.namedItems_mono`: what is listed under the first look-up stands at the front of
    what is listed under the second one.
-/
import ApiCensus.Proofs.Attribute.Visiting

namespace ApiCensus

open Attempt Signature Signature.Decoding

variable {σ τ κ κ' α β γ δ : Type}

/-- As long as the look-ups are in related states, the second one knows what the first one
    knows. -/
structure EnumLookup.Below (S : σ → τ → Prop) (lookup : EnumLookup σ) (more : EnumLookup τ) :
    Prop where
  asks : ∀ name s t, S s t → S (lookup name s).2 (more name t).2
  knows : ∀ name s t type, S s t → (lookup name s).1 = some type → (more name t).1 = some type

/-! ## Readings in step -/

/-- The readings have ended in step: with the same fault or with answers that `A` relates, in
    related states and at the same position. Or the first one has stopped before that. -/
inductive EndInStep (S : σ → τ → Prop) (A : α → β → Prop) (stops : α → Prop) :
    Except Fault α × (Cursor × σ) → Except Fault β × (Cursor × τ) → Prop
  | ok {a : α} {b : β} {cursor : Cursor} {s : σ} {t : τ} (answers : A a b) (related : S s t) :
    EndInStep S A stops (.ok a, (cursor, s)) (.ok b, (cursor, t))
  | error {fault : Fault} {cursor : Cursor} {s : σ} {t : τ} (related : S s t) :
    EndInStep S A stops (.error fault, (cursor, s)) (.error fault, (cursor, t))
  | stopped {a : α} {place : Cursor × σ} {outcome : Except Fault β × (Cursor × τ)} (h : stops a) :
    EndInStep S A stops (.ok a, place) outcome

namespace Signature.Decoding

/-- From the same position and from related states on, the readings end in step. -/
def InStep (S : σ → τ → Prop) (A : α → β → Prop) (stops : α → Prop) (decoding : Decoding σ α)
    (decoding' : Decoding τ β) : Prop :=
  ∀ cursor s t, S s t → EndInStep S A stops (decoding (cursor, s)) (decoding' (cursor, t))

section
variable {S : σ → τ → Prop} {A : α → β → Prop} {B : γ → δ → Prop} {stops : α → Prop}
  {stops' : γ → Prop}

theorem InStep.pure {a : α} {b : β} (h : A a b) :
    InStep S A stops (Pure.pure a : Decoding σ α) (Pure.pure b : Decoding τ β) :=
  fun _ _ _ hS => .ok h hS

theorem InStep.stop {a : α} (h : stops a) (decoding' : Decoding τ β) :
    InStep S A stops (Pure.pure a : Decoding σ α) decoding' :=
  fun _ _ _ _ => .stopped h

theorem InStep.throw (fault : Fault) :
    InStep S A stops (MonadExcept.throw fault : Decoding σ α)
      (MonadExcept.throw fault : Decoding τ β) :=
  fun _ _ _ hS => .error hS

theorem InStep.bind {d : Decoding σ α} {d' : Decoding τ β} {f : α → Decoding σ γ}
    {f' : β → Decoding τ δ} (hd : InStep S A stops d d')
    (hf : ∀ a b, A a b → InStep S B stops' (f a) (f' b))
    (hs : ∀ a, stops a → ∃ c, f a = Pure.pure c ∧ stops' c) :
    InStep S B stops' (d >>= f) (d' >>= f') := by
  intro cursor s t hS
  have hends := hd cursor s t hS
  rw [bind_apply, bind_apply]
  generalize d (cursor, s) = outcome, d' (cursor, t) = outcome' at hends ⊢
  cases hends with
  | ok ha hS' => exact hf _ _ ha _ _ _ hS'
  | error hS' => exact .error hS'
  | @stopped a place _ ha =>
    -- The second reading may go on: nothing is said about it any more.
    obtain ⟨c, hc, hstop⟩ := hs a ha
    show EndInStep S B stops' (f a place) _
    rw [hc]
    exact .stopped hstop

/-- No stop can be reached. -/
abbrev never (_ : α) : Prop := False

theorem InStep.bind_never {d : Decoding σ α} {d' : Decoding τ β} {f : α → Decoding σ γ}
    {f' : β → Decoding τ δ} (hd : InStep S A never d d')
    (hf : ∀ a b, A a b → InStep S B stops' (f a) (f' b)) :
    InStep S B stops' (d >>= f) (d' >>= f') :=
  hd.bind hf fun _ h => h.elim

theorem InStep.ofExcept {result : Except Fault α} {f : α → Decoding σ γ} {f' : α → Decoding τ δ}
    (hf : ∀ a, InStep S B stops' (f a) (f' a)) :
    InStep S B stops' (liftM result >>= f) (liftM result >>= f') := by
  cases result with
  | error fault => exact InStep.throw fault
  | ok a => exact hf a

theorem InStep.read (step : Attempt Cursor α) :
    InStep S Eq never (Decoding.read step) (Decoding.read step) := by
  intro cursor s t hS
  show EndInStep S Eq never ((step cursor).1, ((step cursor).2, s))
    ((step cursor).1, ((step cursor).2, t))
  rcases step cursor with ⟨fault | a, stop⟩
  · exact .error hS
  · exact .ok rfl hS

theorem InStep.read_bind {step : Attempt Cursor α} {f : α → Decoding σ γ} {f' : α → Decoding τ δ}
    (hf : ∀ a, InStep S B stops' (f a) (f' a)) :
    InStep S B stops' (Decoding.read step >>= f) (Decoding.read step >>= f') := by
  refine (InStep.read step).bind_never ?_
  rintro a _ rfl
  exact hf a

theorem InStep.ite {c : Prop} [Decidable c] {d e : Decoding σ α} {d' e' : Decoding τ β}
    (hd : c → InStep S A stops d d') (he : ¬ c → InStep S A stops e e') :
    InStep S A stops (if c then d else e) (if c then d' else e') := by
  by_cases hc : c
  · rw [if_pos hc, if_pos hc]
    exact hd hc
  · rw [if_neg hc, if_neg hc]
    exact he hc

/-- What depends on the position only. -/
theorem InStep.place {f : Cursor → Decoding σ α} {f' : Cursor → Decoding τ β}
    (hf : ∀ cursor, InStep S A stops (f cursor) (f' cursor)) :
    InStep S A stops (get >>= fun place => f place.1) (get >>= fun place => f' place.1) := by
  intro cursor s t hS
  rw [bind_apply_ok (get_apply _), bind_apply_ok (get_apply _)]
  exact hf cursor cursor s t hS

theorem InStep.aside {d : Decoding σ α} {d' : Decoding τ β} (hd : InStep S A never d d')
    (cursor : Cursor) {f : α × Cursor → Decoding σ γ} {f' : β × Cursor → Decoding τ δ}
    (hf : ∀ a b stop, A a b → InStep S B stops' (f (a, stop)) (f' (b, stop))) :
    InStep S B stops' (aside cursor d >>= f) (aside cursor d' >>= f') := by
  intro here s t hS
  have hends := hd cursor s t hS
  rw [bind_apply, bind_apply, Decoding.aside, Decoding.aside]
  generalize d (cursor, s) = outcome, d' (cursor, t) = outcome' at hends ⊢
  cases hends with
  | ok ha hS' => exact hf _ _ _ ha _ _ _ hS'
  | error hS' => exact .error hS'
  | stopped h => exact h.elim

/-- A question to the look-ups. -/
theorem InStep.ask {lookup : EnumLookup σ} {more : EnumLookup τ} (h : lookup.Below S more)
    (name : EnumName) {f : Option Primitive → Decoding σ γ} {f' : Option Primitive → Decoding τ δ}
    (hf : ∀ known known', (∀ type, known = some type → known' = some type) →
      InStep S B stops' (f known) (f' known')) :
    InStep S B stops' (build (ExceptT.lift (lookup name)) >>= f)
      (build (ExceptT.lift (more name)) >>= f') := by
  intro cursor s t hS
  exact hf _ _ (h.knows name s t · hS) cursor _ _ (h.asks name s t hS)

end

end Signature.Decoding

/-! ## What is found out about a width -/

/-- Where the first kind is unknown, the second one may be known. -/
inductive ElementKind.Sharpens : ElementKind → ElementKind → Prop
  | same (kind : ElementKind) : Sharpens kind kind
  | found (type : Primitive) : Sharpens .unknown (.primitive type)

/-- The same of the type of an argument. -/
inductive ArgumentType.Sharpens : ArgumentType → ArgumentType → Prop
  | element {kind kind' : ElementKind} (h : kind.Sharpens kind') :
    Sharpens (.element kind) (.element kind')
  | vector {kind kind' : ElementKind} (h : kind.Sharpens kind') :
    Sharpens (.vector kind) (.vector kind')

/-- The same of the type of a parameter: no type at all stands for an unknown one. -/
inductive ParameterSharpens : Option ArgumentType → Option ArgumentType → Prop
  | none : ParameterSharpens none none
  | some {type type' : ArgumentType} (h : type.Sharpens type') :
    ParameterSharpens (some type) (some type')
  | found (type : Primitive) : ParameterSharpens none (some (.element (.primitive type)))

theorem ElementKind.sharpens_ofUnderlying {known known' : Option Primitive}
    (h : ∀ type, known = some type → known' = some type) :
    (ofUnderlying known).Sharpens (ofUnderlying known') := by
  cases known with
  | none =>
    show Sharpens .unknown (ofUnderlying known')
    unfold ofUnderlying
    split
    · exact .found _
    · exact .same _
  | some type =>
    rw [h type rfl]
    exact .same _

theorem ArgumentType.Sharpens.refl (type : ArgumentType) : type.Sharpens type := by
  cases type with
  | element kind => exact .element (.same kind)
  | vector kind => exact .vector (.same kind)

theorem ParameterSharpens.refl (type : Option ArgumentType) : ParameterSharpens type type := by
  cases type with
  | none => exact .none
  | some type => exact .some (.refl type)

/-! ## The readers of attribute values -/

namespace Assembly

/-- Parameters of sharper and sharper kinds. -/
abbrev KindSharpens (kind kind' : Option ElementKind) : Prop :=
  ParameterSharpens (kind.map .element) (kind'.map .element)

theorem sharpens_enumKind {known known' : Option Primitive}
    (h : ∀ type, known = some type → known' = some type) :
    KindSharpens (enumKind? known) (enumKind? known') := by
  have hkind := ElementKind.sharpens_ofUnderlying h
  unfold enumKind?
  generalize ElementKind.ofUnderlying known = kind, ElementKind.ofUnderlying known' = kind'
    at hkind ⊢
  cases hkind with
  | same => exact .refl _
  | found type => exact .found type

section
variable {assembly : Assembly} {S : σ → τ → Prop} {lookup : EnumLookup σ} {more : EnumLookup τ}

theorem foreignKind_inStep (h : lookup.Below S more) (type : TypeRefRow) :
    InStep S KindSharpens never (assembly.foreignKind lookup type)
      (assembly.foreignKind more type) := by
  refine InStep.ofExcept fun name => ?_
  cases name with
  | none => exact InStep.pure .none
  | some name => exact InStep.ask h name fun _ _ hk => InStep.pure (sharpens_enumKind hk)

theorem referencedKind_inStep (h : lookup.Below S more) (type : TypeRefRow) :
    InStep S KindSharpens never (assembly.referencedKind lookup type)
      (assembly.referencedKind more type) := by
  have hnamed : ∀ isType : Bool, InStep S KindSharpens never
      (if isType then pure (some .typeName) else assembly.foreignKind lookup type)
      (if isType then pure (some .typeName) else assembly.foreignKind more type) :=
    fun isType => InStep.ite (fun _ => InStep.pure (.refl _)) fun _ => foreignKind_inStep h type
  refine InStep.ofExcept fun nameSpace => InStep.ite (fun _ => ?_) fun _ => ?_
  · exact InStep.ofExcept fun name => hnamed _
  · exact hnamed false

theorem nominalKind_inStep (h : lookup.Below S more) (token : Token) :
    InStep S KindSharpens never (assembly.nominalKind lookup token)
      (assembly.nominalKind more token) := by
  unfold nominalKind
  split
  · exact InStep.ofExcept fun type => referencedKind_inStep h type
  · exact InStep.ofExcept fun _ => InStep.ofExcept fun _ => InStep.pure (.refl _)
  · exact InStep.pure .none

theorem parameterBy_inStep (h : lookup.Below S more)
    {onVector onGeneric : Decoding σ (Option ArgumentType)}
    {onVector' onGeneric' : Decoding τ (Option ArgumentType)}
    (hv : InStep S ParameterSharpens never onVector onVector')
    (hg : InStep S ParameterSharpens never onGeneric onGeneric') :
    InStep S ParameterSharpens never (assembly.parameterBy lookup onVector onGeneric)
      (assembly.parameterBy more onVector' onGeneric') := by
  refine InStep.read_bind fun code => ?_
  split
  · exact InStep.pure (.refl _)
  · split
    · exact InStep.pure (.refl _)
    · exact InStep.read_bind fun token =>
        (nominalKind_inStep h token).bind_never fun _ _ hk => InStep.pure hk
    · exact InStep.read_bind fun token =>
        (nominalKind_inStep h token).bind_never fun _ _ hk => InStep.pure hk
    · exact hv
    · exact hg
    · exact InStep.pure .none

theorem vectorOf_inStep {element : Decoding σ (Option ArgumentType)}
    {element' : Decoding τ (Option ArgumentType)}
    (he : InStep S ParameterSharpens never element element') :
    InStep S ParameterSharpens never (vectorOf element) (vectorOf element') := by
  refine he.bind_never fun type type' ht => ?_
  cases ht with
  | none => exact InStep.pure (.refl _)
  | some ht =>
    cases ht with
    | element hk => exact InStep.pure (.some (.vector hk))
    | vector hk => exact InStep.pure .none
  | found type => exact InStep.pure (.some (.vector (.found type)))

theorem argumentOf_inStep {argument : Decoding σ (Option ArgumentType)}
    {argument' : Decoding τ (Option ArgumentType)} (context : Cursor)
    (ha : InStep S ParameterSharpens never argument argument') :
    InStep S ParameterSharpens never (argumentOf context argument)
      (argumentOf context argument') := by
  refine (InStep.read _).aside context ?_
  rintro count _ stop rfl
  refine InStep.read_bind fun index => InStep.ite (fun _ => InStep.throw _) fun _ => ?_
  refine (InStep.read _).aside _ ?_
  rintro _ _ stop rfl
  exact ha.aside _ fun _ _ _ ht => InStep.pure ht

theorem elementType_inStep (h : lookup.Below S more) :
    InStep S ParameterSharpens never (assembly.elementType lookup) (assembly.elementType more) :=
  parameterBy_inStep h (InStep.throw _) (InStep.throw _)

theorem plainType_inStep (h : lookup.Below S more) :
    InStep S ParameterSharpens never (assembly.plainType lookup) (assembly.plainType more) :=
  parameterBy_inStep h (vectorOf_inStep (elementType_inStep h)) (InStep.throw _)

theorem elementTypeWithin_inStep (h : lookup.Below S more) (context : Cursor) :
    InStep S ParameterSharpens never (assembly.elementTypeWithin lookup context)
      (assembly.elementTypeWithin more context) :=
  parameterBy_inStep h (InStep.throw _) (argumentOf_inStep context (elementType_inStep h))

theorem typeWithin_inStep (h : lookup.Below S more) (context : Cursor) :
    InStep S ParameterSharpens never (assembly.typeWithin lookup context)
      (assembly.typeWithin more context) :=
  parameterBy_inStep h (vectorOf_inStep (elementTypeWithin_inStep h context))
    (argumentOf_inStep context (plainType_inStep h))

theorem parameterType_inStep (h : lookup.Below S more) (context : Option Cursor) :
    InStep S ParameterSharpens never (assembly.parameterType lookup context)
      (assembly.parameterType more context) := by
  cases context with
  | none => exact plainType_inStep h
  | some context => exact typeWithin_inStep h context

theorem kindOfTag_inStep (h : lookup.Below S more) (tag : UInt8) :
    InStep S ElementKind.Sharpens never (kindOfTag lookup tag) (kindOfTag more tag) := by
  unfold kindOfTag
  split
  · exact InStep.pure (.same _)
  · split
    · exact InStep.pure (.same _)
    · exact InStep.pure (.same _)
    · refine InStep.read_bind fun text => ?_
      split
      · exact InStep.ask h _ fun _ _ hk =>
          InStep.pure (ElementKind.sharpens_ofUnderlying hk)
      · exact InStep.pure (.same _)
    · exact InStep.throw _

theorem taggedType_inStep (h : lookup.Below S more) :
    InStep S ArgumentType.Sharpens never (taggedType lookup) (taggedType more) := by
  refine InStep.read_bind fun tag => InStep.ite (fun _ => ?_) fun _ => ?_
  · refine InStep.read_bind fun tag => InStep.ite (fun _ => InStep.throw _) fun _ => ?_
    exact (kindOfTag_inStep h tag).bind_never fun _ _ hk => InStep.pure (.vector hk)
  · exact (kindOfTag_inStep h tag).bind_never fun _ _ hk => InStep.pure (.element hk)

/-! ## Passing over values -/

/-- Both readings pass over the same value, or the first one does not know its width. -/
abbrev SkipsAlike (S : σ → τ → Prop) (skip : Decoding σ Bool) (skip' : Decoding τ Bool) : Prop :=
  InStep S Eq (· = false) skip skip'

theorem SkipsAlike.stop (skip' : Decoding τ Bool) :
    SkipsAlike S (pure false : Decoding σ Bool) skip' :=
  fun _ _ _ _ => .stopped rfl

theorem SkipsAlike.bind {skip : Decoding σ Bool} {skip' : Decoding τ Bool} {stops : α → Prop}
    {next other : Decoding σ α} {next' other' : Decoding τ α} (hs : SkipsAlike S skip skip')
    (hn : InStep S Eq stops next next') (ho : ∃ a, other = pure a ∧ stops a) :
    InStep S Eq stops (skip >>= fun known => if known then next else other)
      (skip' >>= fun known => if known then next' else other') := by
  refine InStep.bind hs ?_ ?_
  · rintro (_ | _) _ rfl
    · obtain ⟨a, rfl, ha⟩ := ho
      exact InStep.stop ha _
    · exact hn
  · rintro _ rfl
    exact ho

theorem skipPlain_inStep (kind : ElementKind) :
    SkipsAlike S (skipPlain kind : Decoding σ Bool) (skipPlain kind) := by
  unfold skipPlain
  split
  · exact InStep.read_bind fun _ => InStep.pure rfl
  · exact InStep.read_bind fun _ => InStep.pure rfl
  · split
    · exact InStep.read_bind fun _ => InStep.pure rfl
    · exact InStep.pure rfl

theorem skipAll_inStep {step : Decoding σ Bool} {step' : Decoding τ Bool}
    (hs : SkipsAlike S step step') (count : Nat) :
    SkipsAlike S (skipAll step count) (skipAll step' count) := by
  induction count with
  | zero => exact InStep.pure rfl
  | succ count ih => exact hs.bind ih ⟨false, rfl, rfl⟩

theorem skipVector_inStep {element : Decoding σ Bool} {element' : Decoding τ Bool}
    (he : SkipsAlike S element element') :
    SkipsAlike S (skipVector element) (skipVector element') :=
  InStep.read_bind fun _ => InStep.ite (fun _ => InStep.throw _) fun _ => skipAll_inStep he _

theorem skipElement_inStep (h : lookup.Below S more) (boxes : Nat) {kind kind' : ElementKind}
    (hk : kind.Sharpens kind') :
    SkipsAlike S (skipElement lookup boxes kind) (skipElement more boxes kind') := by
  induction boxes generalizing kind kind' with
  | zero =>
    cases hk with
    | same =>
      unfold skipElement
      split
      · exact InStep.throw _
      · exact skipPlain_inStep _
    | found type => exact SkipsAlike.stop _
  | succ boxes ih =>
    cases hk with
    | same =>
      unfold skipElement
      split
      · refine (taggedType_inStep h).bind_never fun type type' ht => ?_
        cases ht with
        | @element kind _ hk =>
          cases hk with
          | same =>
            cases kind with
            | boxed => exact InStep.throw _
            | primitive type => exact skipPlain_inStep _
            | typeName => exact skipPlain_inStep _
            | unknown => exact skipPlain_inStep _
          | found type => exact SkipsAlike.stop _
        | vector hk => exact skipVector_inStep (ih hk)
      · exact skipPlain_inStep _
    | found type => exact SkipsAlike.stop _

theorem skipArgument_inStep (h : lookup.Below S more) {type type' : ArgumentType}
    (ht : type.Sharpens type') :
    SkipsAlike S (skipArgument lookup type) (skipArgument more type') := by
  cases ht with
  | element hk => exact InStep.place fun cursor => skipElement_inStep h (cursor.remaining + 1) hk
  | vector hk =>
    exact InStep.place fun cursor =>
      skipVector_inStep (skipElement_inStep h (cursor.remaining + 1) hk)

theorem skipFixed_inStep (h : lookup.Below S more) (context : Option Cursor) (count : Nat)
    (signature : Cursor) :
    SkipsAlike S (assembly.skipFixed lookup context count signature)
      (assembly.skipFixed more context count signature) := by
  induction count generalizing signature with
  | zero => exact InStep.pure rfl
  | succ count ih =>
    refine (parameterType_inStep h context).aside signature fun type type' stop ht => ?_
    cases ht with
    | none => exact SkipsAlike.stop _
    | some ht => exact (skipArgument_inStep h ht).bind (ih stop) ⟨false, rfl, rfl⟩
    | found type => exact SkipsAlike.stop _

/-! ## Named arguments -/

/-- Both readings find the same, or the first one stops. -/
abbrev FindsAlike (S : σ → τ → Prop) (find : Decoding σ (Option α))
    (find' : Decoding τ (Option α)) : Prop :=
  InStep S Eq (· = none) find find'

theorem FindsAlike.stop (find' : Decoding τ (Option α)) :
    FindsAlike S (pure none : Decoding σ (Option α)) find' :=
  fun _ _ _ _ => .stopped rfl

theorem namedCount_inStep (h : lookup.Below S more) (row : CustomAttributeRow)
    (constructor : MemberRefRow) (context : Option Cursor) :
    FindsAlike S (assembly.namedCount lookup row constructor context)
      (assembly.namedCount more row constructor context) := by
  refine InStep.read_bind fun prolog => InStep.ite (fun _ => InStep.throw _) fun _ => ?_
  refine InStep.ofExcept fun blob => (InStep.read _).aside _ ?_
  rintro count _ signature rfl
  refine (skipFixed_inStep h context count signature).bind ?_ ⟨none, rfl, rfl⟩
  exact InStep.read_bind fun _ => InStep.pure rfl

theorem argumentTarget_inStep (tag : UInt8) :
    InStep S Eq never (argumentTarget tag : Decoding σ ArgumentTarget) (argumentTarget tag) := by
  unfold argumentTarget
  split
  · exact InStep.pure rfl
  · exact InStep.pure rfl
  · exact InStep.throw _

theorem namedArgument_inStep (h : lookup.Below S more) :
    FindsAlike S (namedArgument lookup) (namedArgument more) := by
  refine InStep.read_bind fun tag => (argumentTarget_inStep tag).bind_never ?_
  rintro target _ rfl
  refine (taggedType_inStep h).bind_never fun type type' ht => ?_
  by_cases hu : type = .element .unknown
  · rw [if_pos hu]
    exact FindsAlike.stop _
  · have hu' : type' ≠ .element .unknown := by
      rintro rfl
      cases ht with
      | element hk =>
        cases hk with
        | same => exact hu rfl
    rw [if_neg hu, if_neg hu']
    refine InStep.read_bind fun name => ?_
    exact (skipArgument_inStep h ht).bind (InStep.pure rfl) ⟨none, rfl, rfl⟩

end

/-! ## Visits -/

/-- Visits that do the same in both states, as long as the look-ups are in step. What the states
    are like afterwards is not lost when only the second reading goes on. -/
structure VisitsAhead (S E : σ × κ → τ × κ' → Prop) (lookup : EnumLookup σ) (more : EnumLookup τ)
    (visit : NamedArgument → Attempt (σ × κ) Unit)
    (visit' : NamedArgument → Attempt (τ × κ') Unit) : Prop where
  lookups : (lookupBeside lookup).Below S (lookupBeside more)
  visits : ∀ argument, Tracks .nothing S (visit argument) (visit' argument)
  ends : ∀ s t, S s t → E s t
  asks : ∀ t name state kept, E (state, kept) t → E ((lookup name state).2, kept) t
  asksMore : ∀ s name state kept, E s (state, kept) → E s ((more name state).2, kept)
  visitsMore : ∀ s argument, Keeps (E s) (visit' argument)

/-- The visits have ended in the same way, or the first reading has stopped before the second
    one. -/
inductive EndAhead (S E : σ → τ → Prop) : Except Fault Unit × σ → Except Fault Unit × τ → Prop
  | same {result : Except Fault Unit} {s : σ} {t : τ} (related : S s t) :
    EndAhead S E (result, s) (result, t)
  | stopped {result : Except Fault Unit} {s : σ} {t : τ} (related : E s t) :
    EndAhead S E (.ok (), s) (result, t)

section
variable {assembly : Assembly} {lookup : EnumLookup σ} {more : EnumLookup τ}
  {S E : σ × κ → τ × κ' → Prop} {visit : NamedArgument → Attempt (σ × κ) Unit}
  {visit' : NamedArgument → Attempt (τ × κ') Unit}

/-- The second walk is ahead of the first one. -/
def Ahead (S E : σ → τ → Prop) (walk : Decoding σ Unit) (walk' : Decoding τ Unit) : Prop :=
  ∀ cursor s t, S s t →
    EndAhead (fun place place' => S place.2 place'.2) (fun place place' => E place.2 place'.2)
      (walk (cursor, s)) (walk' (cursor, t))

/-- A walk goes on with what is found, and ends where nothing is found. -/
theorem Ahead.of_finds {S E : σ → τ → Prop} {find : Decoding σ (Option α)}
    {find' : Decoding τ (Option α)} {walk : Option α → Decoding σ Unit}
    {walk' : Option α → Decoding τ Unit} (hf : FindsAlike S find find')
    (hw : ∀ a, Ahead S E (walk (some a)) (walk' (some a))) (hn : walk none = pure ())
    (hn' : walk' none = pure ()) (he : ∀ s t, S s t → E s t)
    (hk : ∀ t, Keeps (fun place => E place.2 t) find)
    (hk' : ∀ s, Keeps (fun place => E s place.2) (find' >>= walk')) :
    Ahead S E (find >>= walk) (find' >>= walk') := by
  intro cursor s t hS
  have hends := hf cursor s t hS
  have hfirst := hk t (cursor, s) (he s t hS)
  rcases hr : find (cursor, s) with ⟨result, place⟩
  rcases hr' : find' (cursor, t) with ⟨result', place'⟩
  rw [hr] at hends hfirst
  rw [hr'] at hends
  cases hends with
  | @ok a b cursor' s' t' hab hS' =>
    subst hab
    rw [bind_apply_ok hr, bind_apply_ok hr']
    cases a with
    | none =>
      rw [hn, hn']
      exact .same hS'
    | some a => exact hw a cursor' s' t' hS'
  | error hS' =>
    rw [bind_apply_error hr, bind_apply_error hr']
    exact .same hS'
  | @stopped a _ _ ha =>
    subst ha
    rw [bind_apply_ok hr, hn]
    have hlater := hk' place.2 (cursor, t) hfirst
    exact .stopped hlater

theorem visitNamed_ahead (h : VisitsAhead S E lookup more visit visit') (count : Nat) :
    Ahead S E (visitNamed (lookupBeside lookup) visit count)
      (visitNamed (lookupBeside more) visit' count) := by
  induction count with
  | zero => exact fun _ _ _ hS => .same hS
  | succ count ih =>
    refine Ahead.of_finds (namedArgument_inStep h.lookups) (fun argument => ?_) rfl rfl h.ends ?_ ?_
    · intro cursor s t hS
      have hends := h.visits argument s t hS
      show EndAhead _ _
        ((build (visit argument) >>= fun _ => visitNamed (lookupBeside lookup) visit count)
          (cursor, s))
        ((build (visit' argument) >>= fun _ => visitNamed (lookupBeside more) visit' count)
          (cursor, t))
      rw [bind_apply, bind_apply, build, build, onPart, onPart]
      generalize visit argument s = outcome, visit' argument t = outcome' at hends ⊢
      cases hends with
      | @same result s' t' hS' =>
        cases result with
        | error fault => exact .same hS'
        | ok _ => exact ih cursor s' t' hS'
      | firstFails hg => exact absurd rfl hg
      | secondFails hg => exact absurd hg (by simp)
    · exact fun t => (beside_namedArgument lookup).keeps (P := fun s => E s t) (h.asks t)
    · exact fun s => visitNamed_keeps (P := E s) (h.asksMore s) (h.visitsMore s) (count + 1)

theorem Ahead.onBytes {S E : σ → τ → Prop} {walk : Decoding σ Unit} {walk' : Decoding τ Unit}
    (hw : Ahead S E walk walk') (data : ByteArray) {s : σ} {t : τ} (hS : S s t) :
    EndAhead S E (walk.onBytes data s) (walk'.onBytes data t) := by
  have hends := hw { data } s t hS
  simp only [Decoding.onBytes]
  generalize walk ({ data }, s) = outcome, walk' ({ data }, t) = outcome' at hends ⊢
  cases hends with
  | same hS' => exact .same hS'
  | stopped hE => exact .stopped hE

variable (assembly) in
/-- **Under a look-up that knows more, the visit of the named arguments of an attribute ends in
    the same way, unless the first visit has stopped before.** -/
theorem eachNamedArgument_ahead (h : VisitsAhead S E lookup more visit visit')
    (row : CustomAttributeRow) {s : σ × κ} {t : τ × κ'} (hS : S s t) :
    EndAhead S E (assembly.eachNamedArgument (lookupBeside lookup) row visit s)
      (assembly.eachNamedArgument (lookupBeside more) row visit' t) := by
  unfold eachNamedArgument
  by_cases hm : row.constructor.table = .memberRef
  · rw [if_pos hm, if_pos hm]
    cases assembly.row MemberRefRow row.constructor.row with
    | error fault => exact .same hS
    | ok constructor =>
      rw [bind_liftM_ok, bind_liftM_ok]
      cases assembly.genericContext constructor with
      | error fault => exact .same hS
      | ok context =>
        rw [bind_liftM_ok, bind_liftM_ok]
        cases assembly.blob row.value with
        | error fault => exact .same hS
        | ok value =>
          rw [bind_liftM_ok, bind_liftM_ok]
          refine Ahead.onBytes ?_ value hS
          refine Ahead.of_finds (namedCount_inStep h.lookups row constructor context)
            (visitNamed_ahead h) rfl rfl h.ends ?_ ?_
          · exact fun t => (assembly.beside_namedCount lookup row constructor context).keeps
              (P := fun s => E s t) (h.asks t)
          · refine fun s => Keeps.bind
              ((assembly.beside_namedCount more row constructor context).keeps (P := E s)
                (h.asksMore s)) fun count => ?_
            cases count with
            | none => exact Keeps.pure ()
            | some count => exact visitNamed_keeps (P := E s) (h.asksMore s) (h.visitsMore s) count
  · rw [if_neg hm, if_neg hm]
    exact .same hS

end

end Assembly

/-! ## What is listed -/

/-- Whatever the look-ups have been asked before, the second one gives the same answer wherever
    the first one has an answer. -/
def EnumLookup.ExtendedBy (lookup : EnumLookup σ) (start : σ) (more : EnumLookup τ) (start' : τ) :
    Prop :=
  ∀ state state' name type, lookup.Reached start state → more.Reached start' state' →
    (lookup name state).1 = some type → (more name state').1 = some type

/-- A table with more entries in front knows more: the entries behind them replace them. -/
theorem EnumLookup.extendedBy_ofTable (front table : List KnownEnum) (start : σ) (start' : τ) :
    (ofTable table : EnumLookup σ).ExtendedBy start (ofTable (front ++ table) : EnumLookup τ)
      start' := by
  intro state state' name type _ _ h
  have hknown : (table.reverse.find? fun entry =>
      entry.assembly == name.assembly && entry.name == name.fullName).map KnownEnum.type =
        some type := h
  obtain ⟨entry, hentry, rfl⟩ := Option.map_eq_some_iff.1 hknown
  show ((front ++ table).reverse.find? _).map KnownEnum.type = _
  rw [List.reverse_append, List.find?_append, hentry]
  rfl

namespace Assembly

variable {assembly : Assembly} {lookup : EnumLookup σ} {more : EnumLookup τ}

/-- What a walk over the named arguments of an attribute yields: the arguments, and the fault that
    ends them, if one does. -/
def namedItems (assembly : Assembly) (lookup : EnumLookup σ) (row : CustomAttributeRow)
    (start : σ) : List (Except Fault NamedArgument) :=
  let (found, fault) := (assembly.namedArguments lookup row start).1
  found.map .ok ++ fault.toList.map .error

/-- The look-ups have been asked some questions, and what is kept is related. -/
structure Asked (lookup : EnumLookup σ) (start : σ) (more : EnumLookup τ) (start' : τ)
    (K : κ → κ' → Prop) (s : σ × κ) (t : τ × κ') : Prop where
  first : lookup.Reached start s.1
  second : more.Reached start' t.1
  kept : K s.2 t.2

theorem below_asked {start : σ} {start' : τ} (h : lookup.ExtendedBy start more start')
    (K : κ → κ' → Prop) :
    (lookupBeside lookup).Below (Asked lookup start more start' K) (lookupBeside more) where
  asks name _ _ ha := ⟨.asked name ha.first, .asked name ha.second, ha.kept⟩
  knows name s t type ha hk := h s.1 t.1 name type ha.first ha.second hk

theorem collect_ahead {start : σ} {start' : τ} (h : lookup.ExtendedBy start more start') :
    VisitsAhead (Asked lookup start more start' Eq) (fun s t => s.2.toList <+: t.2.toList) lookup
      more collect collect where
  lookups := below_asked h Eq
  visits argument s t ha := .same ⟨ha.first, ha.second, congrArg (·.push argument) ha.kept⟩
  ends _ _ ha := ha.kept ▸ List.prefix_rfl
  asks _ _ _ _ he := he
  asksMore _ _ _ _ he := he
  visitsMore s argument t he := by
    show s.2.toList <+: (t.2.push argument).toList
    rw [Array.toList_push]
    exact he.trans (List.prefix_append _ _)

/-- **Under a look-up that knows more enums, everything that a walk over the named arguments of an
    attribute yields is yielded again, in the same order and before anything else.** -/
theorem namedItems_mono {start : σ} {start' : τ} (h : lookup.ExtendedBy start more start')
    (row : CustomAttributeRow) :
    assembly.namedItems lookup row start <+: assembly.namedItems more row start' := by
  have hstart : Asked lookup start more start' Eq (start, (#[] : Array NamedArgument))
      (start', #[]) := ⟨.start, .start, rfl⟩
  have hends := assembly.eachNamedArgument_ahead (collect_ahead h) row hstart
  unfold namedItems namedArguments
  generalize assembly.eachNamedArgument (lookupBeside lookup) row collect (start, #[]) = outcome,
    assembly.eachNamedArgument (lookupBeside more) row collect (start', #[]) = outcome' at hends ⊢
  cases hends with
  | @same result s t ha =>
    cases result with
    | error fault => simp [ha.kept]
    | ok _ => simp [ha.kept]
  | @stopped result s t he =>
    obtain ⟨rest, hrest⟩ := he
    cases result with
    | error fault => simp [← hrest]
    | ok _ => simp [← hrest]

end Assembly

end ApiCensus
