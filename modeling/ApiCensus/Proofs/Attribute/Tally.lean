/-
  How many elements the value of an attribute can hold.

  * `Assembly.tallied`, `tallyWithin`, …, `tallyAttribute`: the walk over the value of an attribute
    that also counts the elements that it has passed over.
  * `Decoding.Pays`: a reading that counts ends as the one that does not, and for each element that
    it has counted it has used up a byte.
  * `Assembly.pays_skipElement` and its companions: so it is with the readers of attribute values.
  * `Assembly.skipElement_eq`: boxes are never refused for being too many.
  * `Assembly.elements_paid`: an element takes a byte at least, an array four more than it has
    elements, and no more elements are passed over than a value has bytes.
-/
import ApiCensus.Proofs.Attribute.Nesting
import ApiCensus.Proofs.Attribute.Visiting
import ApiCensus.Proofs.Bytes.Spending

namespace ApiCensus

open Attempt Signature Signature.Decoding

variable {σ α β : Type}

/-! ## Counting -/

namespace Assembly

variable (assembly : Assembly) (lookup : EnumLookup σ)

/-- Counts an element that is passed over. What is inside it has been counted before. -/
def tallied (element : Decoding (σ × Nat) Bool) : Decoding (σ × Nat) Bool := do
  if ← element then do
    build (modify fun (state, count) => (state, count + 1))
    pure true
  else pure false

/-- Passes over a value and counts the elements inside it. -/
def tallyWithin : Nat → ElementKind → Decoding (σ × Nat) Bool
  | boxes, .boxed =>
    match boxes with
    | 0 => throw .outOfBounds
    | boxes + 1 => do
      match ← taggedType (lookupBeside lookup) with
      | .element .boxed => Attempt.malformed .boxedObject
      | .element kind => skipPlain kind
      | .vector kind => skipVector (tallied (tallyWithin boxes kind))
  | _, kind => skipPlain kind

/-- Passes over an argument and counts its elements. A single value is one, too. -/
def tallyArgument (type : ArgumentType) : Decoding (σ × Nat) Bool := do
  let boxes := (← get).1.remaining + 1
  match type with
  | .element kind => tallied (tallyWithin lookup boxes kind)
  | .vector kind => skipVector (tallied (tallyWithin lookup boxes kind))

/-- Passes over the fixed arguments, whose types the signature lists, and counts their elements. -/
def tallyFixed (context : Option Cursor) : Nat → Cursor → Decoding (σ × Nat) Bool
  | 0, _ => pure true
  | count + 1, signature => do
    let (type, signature) ← aside signature (assembly.parameterType (lookupBeside lookup) context)
    match type with
    | none => pure false
    | some type => do
      if ← tallyArgument lookup type then tallyFixed context count signature else pure false

/-- Passes over what stands before the named arguments, and counts the elements of the fixed ones. -/
def tallyHeader (row : CustomAttributeRow) (constructor : MemberRefRow)
    (context : Option Cursor) : Decoding (σ × Nat) (Option Nat) := do
  if (← read (Cursor.number 2)) ≠ attributeProlog then
    Attempt.malformed (.attributeProlog row.token)
  else
    let blob ← assembly.blob constructor.signature
    let (count, signature) ← aside { data := blob } (read (constructorParameters constructor))
    if ← assembly.tallyFixed lookup context count signature then
      some <$> read (Cursor.number 2)
    else
      pure none

/-- Reads a named argument without its value, whose elements are counted. -/
def tallyNamed : Decoding (σ × Nat) (Option NamedArgument) := do
  let target ← argumentTarget (← read Cursor.byte)
  let type ← taggedType (lookupBeside lookup)
  if type = .element .unknown then
    pure none
  else
    let name ← read SerializedText.read
    if ← tallyArgument lookup type then pure (some { target, name }) else pure none

/-- What is done without a look at the count. -/
def uncounted (step : Attempt σ α) : Attempt (σ × Nat) α :=
  Attempt.onPart Prod.fst (fun kept state => (state, kept.2)) step

/-- Visits named arguments, up to the first one of an unknown type, and counts their elements. -/
def tallyVisits (visit : NamedArgument → Attempt σ Unit) : Nat → Decoding (σ × Nat) Unit
  | 0 => pure ()
  | count + 1 => do
    match ← tallyNamed lookup with
    | none => pure ()
    | some argument => do
      build (uncounted (visit argument))
      tallyVisits visit count

/-- Visits the named arguments of an attribute and counts the elements of its value, those of the
    fixed arguments as well. -/
def tallyAttribute (row : CustomAttributeRow) (visit : NamedArgument → Attempt σ Unit) :
    Attempt (σ × Nat) Unit :=
  if row.constructor.table = .memberRef then do
    let constructor ← assembly.row MemberRefRow row.constructor.row
    let context ← assembly.genericContext constructor
    let value ← assembly.blob row.value
    let walk : Decoding (σ × Nat) Unit := do
      match ← assembly.tallyHeader lookup row constructor context with
      | none => pure ()
      | some count => tallyVisits lookup visit count
    walk.onBytes value
  else
    pure ()

/-- The number of bytes of the value of an attribute, 0 if it cannot be found. -/
def valueSize (row : CustomAttributeRow) : Nat :=
  match assembly.blob row.value with
  | .ok value => value.size
  | .error _ => 0

/-- The number that an array starts with. -/
def arrayCount (cursor : Cursor) : Int :=
  LittleEndian.signed 4 (LittleEndian.valueAt cursor.data cursor.pos 4)

end Assembly

/-! ## Counted elements are paid for -/

namespace Signature.Decoding

/-- The reading that counts ends as the plain one does. Where it ends well it has used up a byte for
    each element that it has counted, and as many more as the answer costs. Where it fails it may
    stop anywhere, but it has counted no more elements than there were bytes. -/
def Pays (cost : α → Nat) (counting : Decoding (σ × Nat) α) (plain : Decoding σ α) : Prop :=
  ∀ cursor state count, ∃ result stop state' more,
    plain (cursor, state) = (result, (stop, state')) ∧
      counting (cursor, (state, count)) = (result, (stop, (state', count + more))) ∧
      more ≤ cursor.remaining ∧ ∀ a, result = .ok a → cursor.Spends (more + cost a) stop

/-- The answer itself costs nothing. -/
abbrev Balances (counting : Decoding (σ × Nat) α) (plain : Decoding σ α) : Prop :=
  Pays (fun _ => 0) counting plain

section
variable {cost other : α → Nat} {counting : Decoding (σ × Nat) α} {plain : Decoding σ α}
  {next : α → Decoding (σ × Nat) β} {next' : α → Decoding σ β}

theorem Pays.pure {a : α} (h : cost a = 0) :
    Pays cost (Pure.pure a : Decoding (σ × Nat) α) (Pure.pure a) := by
  refine fun cursor state count => ⟨.ok a, cursor, state, 0, rfl, rfl, Nat.zero_le _, ?_⟩
  rintro _ ⟨⟩
  rw [h]
  exact .refl cursor

theorem Pays.throw (fault : Fault) :
    Pays cost (MonadExcept.throw fault : Decoding (σ × Nat) α) (MonadExcept.throw fault) :=
  fun cursor state _ => ⟨.error fault, cursor, state, 0, rfl, rfl, Nat.zero_le _, nofun⟩

theorem Pays.ofExcept (result : Except Fault α) :
    Balances (liftM result : Decoding (σ × Nat) α) (liftM result) :=
  fun cursor state _ => ⟨result, cursor, state, 0, rfl, rfl, Nat.zero_le _, fun _ _ => .refl cursor⟩

theorem Pays.read {step : Attempt Cursor α} {bytes : Nat} (h : Cursor.Costs step bytes) :
    Pays (fun _ => bytes) (read step : Decoding (σ × Nat) α) (read step) := by
  refine fun cursor state count =>
    ⟨(step cursor).1, (step cursor).2, state, 0, rfl, rfl, Nat.zero_le _, fun a ha => ?_⟩
  rw [Nat.zero_add]
  exact h cursor a _ (Prod.ext ha rfl)

/-- A question to the look-up. -/
theorem Pays.ask {lookup : EnumLookup σ} (name : EnumName) :
    Balances
      (build (ExceptT.lift (Assembly.lookupBeside lookup name)) :
        Decoding (σ × Nat) (Option Primitive))
      (build (ExceptT.lift (lookup name))) :=
  fun cursor state _ =>
    ⟨.ok (lookup name state).1, cursor, (lookup name state).2, 0, rfl, rfl, Nat.zero_le _,
      fun _ _ => .refl cursor⟩

theorem Pays.mono (h : Pays cost counting plain) (hle : ∀ a, other a ≤ cost a) :
    Pays other counting plain := by
  intro cursor state count
  obtain ⟨result, stop, state', more, hplain, hcounting, hmore, hspends⟩ := h cursor state count
  refine ⟨result, stop, state', more, hplain, hcounting, hmore, fun a ha => ?_⟩
  exact (hspends a ha).mono (Nat.add_le_add_left (hle a) more)

theorem Pays.balances (h : Pays cost counting plain) : Balances counting plain :=
  h.mono fun _ => Nat.zero_le _

/-- What the first reading costs and what the second one costs is used up by both. -/
theorem Pays.bind_of_le {total cost : β → Nat} (hf : Pays other counting plain)
    (hn : ∀ a, Pays cost (next a) (next' a)) (hle : ∀ a b, total b ≤ other a + cost b) :
    Pays total (counting >>= next) (plain >>= next') := by
  intro cursor state count
  obtain ⟨result, middle, state', more, hplain, hcounting, hmore, hspends⟩ := hf cursor state count
  cases result with
  | error fault =>
    exact ⟨.error fault, middle, state', more, bind_apply_error hplain,
      bind_apply_error hcounting, hmore, nofun⟩
  | ok a =>
    obtain ⟨result, stop, state'', more', hplain', hcounting', hmore', hspends'⟩ :=
      hn a middle state' (count + more)
    have hfirst := hspends a rfl
    have hpaid := hfirst.paid
    refine ⟨result, stop, state'', more + more', ?_, ?_, by omega, fun b hb => ?_⟩
    · rw [bind_apply_ok hplain, hplain']
    · rw [bind_apply_ok hcounting, hcounting', Nat.add_assoc]
    · have htotal := hle a b
      exact (hfirst.trans (hspends' b hb)).mono (by omega)

theorem Pays.bind {cost : β → Nat} (hf : Pays other counting plain)
    (hn : ∀ a, Pays cost (next a) (next' a)) : Pays cost (counting >>= next) (plain >>= next') :=
  hf.bind_of_le hn fun _ _ => Nat.le_add_left _ _

theorem Pays.bind_balances {bytes : Nat} (hf : Pays (fun _ => bytes) counting plain)
    (hn : ∀ a, Balances (next a) (next' a)) :
    Pays (fun _ => bytes) (counting >>= next) (plain >>= next') :=
  hf.bind_of_le hn fun _ _ => Nat.le_add_right _ _

/-- A plain reading that ends well has used up what its answer costs. -/
theorem Pays.spends (h : Pays cost counting plain) {cursor stop : Cursor} {state state' : σ} {a : α}
    (hrun : plain (cursor, state) = (.ok a, (stop, state'))) : cursor.Spends (cost a) stop := by
  obtain ⟨result, stop', state'', more, hplain, -, -, hspends⟩ := h cursor state 0
  obtain ⟨rfl, hplace⟩ := Prod.mk.inj (hplain.symm.trans hrun)
  obtain ⟨rfl, -⟩ := Prod.mk.inj hplace
  exact (hspends a rfl).mono (Nat.le_add_left _ _)

theorem Pays.le_count (h : Pays cost counting plain) {cursor stop : Cursor} {state state' : σ}
    {count count' : Nat} {result : Except Fault α}
    (hrun : counting (cursor, (state, count)) = (result, (stop, (state', count')))) :
    count ≤ count' := by
  obtain ⟨result', stop', state'', more, -, hcounting, -, -⟩ := h cursor state count
  obtain ⟨-, hplace⟩ := Prod.mk.inj (hcounting.symm.trans hrun)
  obtain ⟨-, hkept⟩ := Prod.mk.inj hplace
  obtain ⟨-, rfl⟩ := Prod.mk.inj hkept
  exact Nat.le_add_right _ _

/-- Over a whole byte string no more is counted than there are bytes. -/
theorem Pays.onBytes (h : Balances counting plain) (data : ByteArray) (state : σ) :
    ∃ count ≤ data.size, counting.onBytes data (state, 0) =
      ((plain.onBytes data state).1, ((plain.onBytes data state).2, count)) := by
  obtain ⟨result, stop, state', more, hplain, hcounting, hmore, -⟩ := h { data } state 0
  rw [Nat.zero_add] at hcounting
  exact ⟨more, hmore, by rw [Decoding.onBytes, Decoding.onBytes, hplain, hcounting]⟩

theorem Pays.ite {c : Prop} [Decidable c] {counting' : Decoding (σ × Nat) α}
    {plain' : Decoding σ α} (h : c → Pays cost counting plain)
    (h' : ¬ c → Pays cost counting' plain') :
    Pays cost (if c then counting else counting') (if c then plain else plain') := by
  by_cases hc : c
  · rw [if_pos hc, if_pos hc]
    exact h hc
  · rw [if_neg hc, if_neg hc]
    exact h' hc

theorem Pays.map (h : Balances counting plain) (f : α → β) :
    Balances (f <$> counting) (f <$> plain) :=
  h.bind fun a => Pays.pure (a := f a) rfl

/-- What depends on the place of the reading only. -/
theorem Pays.place {cost : β → Nat} {f : Cursor → Decoding (σ × Nat) β}
    {g : Cursor → Decoding σ β} (hf : ∀ cursor, Pays cost (f cursor) (g cursor)) :
    Pays cost (get >>= fun place => f place.1) (get >>= fun place => g place.1) := by
  intro cursor state count
  obtain ⟨result, stop, state', more, hplain, hcounting, hpays⟩ := hf cursor cursor state count
  refine ⟨result, stop, state', more, ?_, ?_, hpays⟩
  · rw [bind_apply_ok (get_apply _), hplain]
  · rw [bind_apply_ok (get_apply _), hcounting]

/-- What is read elsewhere uses up nothing here. -/
theorem Pays.aside {lookup : EnumLookup σ} (h : Beside lookup counting plain) (there : Cursor) :
    Balances (aside there counting) (aside there plain) := by
  intro cursor state count
  obtain ⟨result, stop, state', -, hplain, hcounting⟩ := h.aside there cursor state count
  have hstop : (Decoding.aside there plain (cursor, state)).2.1 = cursor := by
    rw [Decoding.aside]
    rcases plain (there, state) with ⟨_ | _, _, _⟩ <;> rfl
  rw [hplain] at hstop
  obtain rfl : stop = cursor := hstop
  exact ⟨result, stop, state', 0, hplain, hcounting, Nat.zero_le _, fun _ _ => .refl stop⟩

/-- What is done besides, which may do anything to what the look-up remembers. -/
theorem Pays.uncounted (step : Attempt σ α) :
    Balances (build (Assembly.uncounted step)) (build step) :=
  fun cursor state _ => ⟨(step state).1, cursor, (step state).2, 0, rfl, rfl, Nat.zero_le _,
    fun _ _ => .refl cursor⟩

/-- An element that is passed over is counted for the byte that it has used up beyond those inside
    it. -/
theorem Pays.tallied {element : Decoding (σ × Nat) Bool} {element' : Decoding σ Bool}
    (h : Pays Bool.toNat element element') : Balances (Assembly.tallied element) element' := by
  intro cursor state count
  obtain ⟨result, stop, state', more, hplain, hcounting, hmore, hspends⟩ := h cursor state count
  rcases result with fault | _ | _
  · exact ⟨.error fault, stop, state', more, hplain, bind_apply_error hcounting, hmore, nofun⟩
  · refine ⟨.ok false, stop, state', more, hplain, bind_apply_ok hcounting, hmore, ?_⟩
    rintro _ ⟨⟩
    exact hspends false rfl
  · -- The byte that is left over becomes the price of this element.
    have hone := hspends true rfl
    have hpaid := hone.paid
    refine ⟨.ok true, stop, state', more + 1, hplain, bind_apply_ok hcounting, ?_, ?_⟩
    · exact Nat.le_trans (Nat.le_add_left _ _) hpaid
    · rintro _ ⟨⟩
      exact hone

theorem Pays.skipAll {step : Decoding (σ × Nat) Bool} {step' : Decoding σ Bool}
    (h : Balances step step') (count : Nat) :
    Balances (Assembly.skipAll step count) (Assembly.skipAll step' count) := by
  induction count with
  | zero => exact Pays.pure rfl
  | succ count ih => exact h.bind fun _ => Pays.ite (fun _ => ih) fun _ => Pays.pure rfl

theorem Pays.skipVector {element : Decoding (σ × Nat) Bool} {element' : Decoding σ Bool}
    (h : Balances element element') :
    Balances (Assembly.skipVector element) (Assembly.skipVector element') :=
  (Pays.read (Cursor.costs_number 4)).bind fun _ =>
    Pays.ite (fun _ => Pays.throw _) fun _ => h.skipAll _

end

end Signature.Decoding

/-! ## The readers of attribute values -/

theorem ElementKind.width_pos {kind : ElementKind} {width : Nat} (h : kind.width? = some width) :
    0 < width := by
  unfold width? at h
  split at h
  all_goals cases h
  all_goals decide

namespace Assembly

variable (assembly : Assembly) (lookup : EnumLookup σ)

theorem pays_kindOfTag (tag : UInt8) :
    Balances (kindOfTag (lookupBeside lookup) tag) (kindOfTag lookup tag) := by
  unfold kindOfTag
  split
  · exact Pays.pure rfl
  · split
    · exact Pays.pure rfl
    · exact Pays.pure rfl
    · refine (Pays.read SerializedText.costs_read).bind fun text => ?_
      split
      · exact (Pays.ask _).bind fun _ => Pays.pure rfl
      · exact Pays.pure rfl
    · exact Pays.throw _

/-- The type of a value takes a byte at least. -/
theorem pays_taggedType :
    Pays (fun _ => 1) (taggedType (lookupBeside lookup)) (taggedType lookup) := by
  refine (Pays.read Cursor.costs_byte).bind_balances fun tag => Pays.ite (fun _ => ?_) fun _ => ?_
  · refine (Pays.read Cursor.costs_byte).bind fun tag => ?_
    exact Pays.ite (fun _ => Pays.throw _) fun _ => (pays_kindOfTag lookup tag).map _
  · exact (pays_kindOfTag lookup tag).map _

/-- No value that is passed over is free. -/
theorem pays_skipPlain (kind : ElementKind) :
    Pays Bool.toNat (skipPlain kind : Decoding (σ × Nat) Bool) (skipPlain kind) := by
  have htext : Pays Bool.toNat
      (read SerializedText.skip >>= fun _ => pure true : Decoding (σ × Nat) Bool)
      (read SerializedText.skip >>= fun _ => pure true) :=
    ((Pays.read SerializedText.costs_skip).bind_balances fun _ => Pays.pure rfl).mono Bool.toNat_le
  unfold skipPlain
  split
  · exact htext
  · exact htext
  · split
    · next width hwidth =>
      refine ((Pays.read (Cursor.costs_advance width)).bind_balances fun _ => Pays.pure rfl).mono ?_
      exact fun known => Nat.le_trans known.toNat_le (ElementKind.width_pos hwidth)
    · exact Pays.pure rfl

theorem tallyWithin_of_ne {kind : ElementKind} (hk : kind ≠ .boxed) (boxes : Nat) :
    tallyWithin lookup boxes kind = skipPlain kind := by
  cases kind with
  | boxed => exact absurd rfl hk
  | _ => cases boxes <;> rfl

theorem pays_skipElement (boxes : Nat) (kind : ElementKind) :
    Pays Bool.toNat (tallyWithin lookup boxes kind) (skipElement lookup boxes kind) := by
  -- On the number of boxes: the tag of a box pays for the box, its elements pay for themselves.
  induction boxes generalizing kind with
  | zero =>
    by_cases hk : kind = .boxed
    · subst hk
      exact Pays.throw _
    · rw [tallyWithin_of_ne lookup hk, AttributeValue.skipElement_of_ne hk]
      exact pays_skipPlain kind
  | succ boxes ih =>
    by_cases hk : kind = .boxed
    · subst hk
      refine ((pays_taggedType lookup).bind_balances fun type => ?_).mono Bool.toNat_le
      cases type with
      | vector kind => exact (ih kind).tallied.skipVector
      | element kind =>
        cases kind with
        | boxed => exact Pays.throw _
        | _ => exact (pays_skipPlain _).balances
    · rw [tallyWithin_of_ne lookup hk, AttributeValue.skipElement_of_ne hk]
      exact pays_skipPlain kind

theorem pays_skipArgument (type : ArgumentType) :
    Balances (tallyArgument lookup type) (skipArgument lookup type) := by
  cases type with
  | element kind =>
    exact Pays.place (f := fun cursor => tallied (tallyWithin lookup (cursor.remaining + 1) kind))
      fun cursor => (pays_skipElement lookup _ kind).tallied
  | vector kind =>
    exact Pays.place
      (f := fun cursor => skipVector (tallied (tallyWithin lookup (cursor.remaining + 1) kind)))
      fun cursor => (pays_skipElement lookup _ kind).tallied.skipVector

theorem pays_skipFixed (context : Option Cursor) (count : Nat) (signature : Cursor) :
    Balances (assembly.tallyFixed lookup context count signature)
      (assembly.skipFixed lookup context count signature) := by
  induction count generalizing signature with
  | zero => exact Pays.pure rfl
  | succ count ih =>
    refine (Pays.aside (assembly.beside_parameterType lookup context) signature).bind ?_
    rintro ⟨_ | type, signature⟩
    · exact Pays.pure rfl
    · refine (pays_skipArgument lookup type).bind fun known => ?_
      exact Pays.ite (fun _ => ih signature) fun _ => Pays.pure rfl

theorem pays_namedCount (row : CustomAttributeRow) (constructor : MemberRefRow)
    (context : Option Cursor) :
    Balances (assembly.tallyHeader lookup row constructor context)
      (assembly.namedCount lookup row constructor context) := by
  have hparameters : Beside lookup
      (read (constructorParameters constructor) : Decoding (σ × Nat) Nat)
      (read (constructorParameters constructor)) := Beside.read _
  refine (Pays.read (Cursor.costs_number 2)).bind fun prolog =>
    Pays.ite (fun _ => Pays.throw _) fun _ => ?_
  refine (Pays.ofExcept _).bind fun blob => (Pays.aside hparameters _).bind ?_
  rintro ⟨count, signature⟩
  refine (pays_skipFixed assembly lookup context count signature).bind fun known => ?_
  refine Pays.ite (fun _ => ?_) fun _ => Pays.pure rfl
  exact (Pays.read (Cursor.costs_number 2)).balances.map _

theorem pays_namedArgument : Balances (tallyNamed lookup) (namedArgument lookup) := by
  have htarget : ∀ tag, Balances (argumentTarget tag : Decoding (σ × Nat) ArgumentTarget)
      (argumentTarget tag) := by
    intro tag
    unfold argumentTarget
    split
    · exact Pays.pure rfl
    · exact Pays.pure rfl
    · exact Pays.throw _
  refine (Pays.read Cursor.costs_byte).bind fun tag => (htarget tag).bind fun target => ?_
  refine (pays_taggedType lookup).bind fun type => Pays.ite (fun _ => Pays.pure rfl) fun _ => ?_
  refine (Pays.read SerializedText.costs_read).bind fun name => ?_
  refine (pays_skipArgument lookup type).bind fun known => ?_
  exact Pays.ite (fun _ => Pays.pure rfl) fun _ => Pays.pure rfl

theorem pays_visitNamed (visit : NamedArgument → Attempt σ Unit) (count : Nat) :
    Balances (tallyVisits lookup visit count) (visitNamed lookup visit count) := by
  induction count with
  | zero => exact Pays.pure rfl
  | succ count ih =>
    refine (pays_namedArgument lookup).bind fun argument => ?_
    cases argument with
    | none => exact Pays.pure rfl
    | some argument => exact (Pays.uncounted (visit argument)).bind fun _ => ih

/-! ## What elements take -/

section
variable {lookup} {step step' : Decoding σ Bool} {kind : ElementKind} {boxes boxes' : Nat}
  {cursor stop : Cursor} {state state' : σ}

theorem spends_of_skipElement
    (h : skipElement lookup boxes kind (cursor, state) = (.ok true, (stop, state'))) :
    cursor.Spends 1 stop :=
  (pays_skipElement lookup boxes kind).spends h

theorem spends_of_skipAll
    (hs : ∀ cursor state stop state', step (cursor, state) = (.ok true, (stop, state')) →
      cursor.Spends 1 stop) {count : Nat}
    (h : skipAll step count (cursor, state) = (.ok true, (stop, state'))) :
    cursor.Spends count stop := by
  induction count generalizing cursor state with
  | zero =>
    cases h
    exact .refl _
  | succ count ih =>
    obtain ⟨known, ⟨middle, state''⟩, hone, hrest⟩ := bind_eq_ok h
    cases known with
    | false => cases hrest
    | true => exact ((hs _ _ _ _ hone).trans (ih hrest)).mono (Nat.le_of_eq (Nat.add_comm _ _))

/-- Behind the number of an array its elements are passed over. -/
theorem skipVector_eq_ok {known : Bool}
    (h : skipVector step (cursor, state) = (.ok known, (stop, state'))) :
    ∃ middle, cursor.Spends 4 middle ∧
      skipAll step (arrayCount cursor).toNat (middle, state) = (.ok known, (stop, state')) := by
  obtain ⟨n, ⟨middle, state''⟩, hread, hrest⟩ := bind_eq_ok h
  obtain ⟨hresult, hplace⟩ := Prod.mk.inj hread
  obtain ⟨hmiddle, rfl⟩ := Prod.mk.inj hplace
  have hnumber : Cursor.number 4 cursor = (.ok n, middle) := Prod.ext hresult hmiddle
  obtain ⟨-, rfl, -⟩ := Cursor.number_eq_ok hnumber
  dsimp only at hrest
  split at hrest
  · cases hrest
  · exact ⟨middle, Cursor.costs_number 4 cursor _ middle hnumber, hrest⟩

/-- An array takes the four bytes of its number and a byte for each element. -/
theorem spends_of_skipVector
    (h : skipVector (skipElement lookup boxes kind) (cursor, state) =
      (.ok true, (stop, state'))) :
    cursor.Spends (4 + (arrayCount cursor).toNat) stop := by
  obtain ⟨middle, hfour, hall⟩ := skipVector_eq_ok h
  exact hfour.trans (spends_of_skipAll (fun _ _ _ _ => spends_of_skipElement) hall)

theorem le_count_of_skipAll {element : Decoding (σ × Nat) Bool} {element' : Decoding σ Bool}
    (hp : Pays Bool.toNat element element') {n count count' : Nat}
    (h : skipAll (tallied element) n (cursor, (state, count)) =
      (.ok true, (stop, (state', count')))) : count + n ≤ count' := by
  induction n generalizing cursor state count with
  | zero =>
    cases h
    exact Nat.le_refl _
  | succ n ih =>
    obtain ⟨known, ⟨middle, state'', between⟩, hone, hrest⟩ := bind_eq_ok h
    cases known with
    | false => cases hrest
    | true =>
      obtain ⟨known, ⟨place, kept, inside⟩, helement, htick⟩ := bind_eq_ok hone
      cases known with
      | false => cases htick
      | true =>
        have hcount := hp.le_count helement
        have hall := ih hrest
        cases htick
        omega

/-- No element of an array that is passed over escapes the count. -/
theorem le_count_of_skipVector {count count' : Nat}
    (h : skipVector (tallied (tallyWithin lookup boxes kind)) (cursor, (state, count)) =
      (.ok true, (stop, (state', count')))) : count + (arrayCount cursor).toNat ≤ count' := by
  obtain ⟨middle, -, hall⟩ := skipVector_eq_ok h
  exact le_count_of_skipAll (pays_skipElement lookup boxes kind) hall

/-! ## Boxes inside each other -/

theorem skipAll_congr (hs : ∀ place state, place.remaining ≤ cursor.remaining →
      step (place, state) = step' (place, state))
    (hone : ∀ place state stop state', step (place, state) = (.ok true, (stop, state')) →
      place.Spends 1 stop) {place : Cursor} (hplace : place.remaining ≤ cursor.remaining)
    (state : σ) (count : Nat) :
    skipAll step count (place, state) = skipAll step' count (place, state) := by
  induction count generalizing place state with
  | zero => rfl
  | succ count ih =>
    rw [skipAll, skipAll, bind_apply, bind_apply, ← hs place state hplace]
    rcases hrun : step (place, state) with ⟨fault | _ | _, stop, state'⟩
    · rfl
    · rfl
    · have hpaid := (hone _ _ _ _ hrun).paid
      exact ih (by omega) state'

theorem skipVector_congr (hs : ∀ place state, place.remaining ≤ cursor.remaining →
      step (place, state) = step' (place, state))
    (hone : ∀ place state stop state', step (place, state) = (.ok true, (stop, state')) →
      place.Spends 1 stop) (state : σ) :
    skipVector step (cursor, state) = skipVector step' (cursor, state) := by
  rw [skipVector, skipVector, bind_apply, bind_apply]
  rcases hrun : (read (Cursor.number 4) : Decoding σ Nat) (cursor, state) with
    ⟨fault | n, place, state'⟩
  · rfl
  · have hpaid : place.remaining ≤ cursor.remaining :=
      ((Pays.read (Cursor.costs_number 4)).balances.spends hrun).paid
    dsimp only
    split
    · rfl
    · exact skipAll_congr hs hone hpaid state' _

/-- **Each box takes a byte at least, so it makes no difference how many may lie inside each other
    once there may be more than there are bytes.** -/
theorem skipElement_eq (h : cursor.remaining < boxes) (h' : cursor.remaining < boxes')
    (state : σ) :
    skipElement lookup boxes kind (cursor, state) =
      skipElement lookup boxes' kind (cursor, state) := by
  -- On the number of boxes: behind the tag of a box there is a byte less, and a box less is left.
  induction boxes generalizing boxes' cursor state kind with
  | zero => exact absurd h (Nat.not_lt_zero _)
  | succ boxes ih =>
    obtain ⟨boxes', rfl⟩ : ∃ n, boxes' = n + 1 := ⟨boxes' - 1, by omega⟩
    by_cases hk : kind = .boxed
    · subst hk
      rw [skipElement, skipElement, bind_apply, bind_apply]
      rcases hrun : taggedType lookup (cursor, state) with ⟨fault | type, place, state'⟩
      · rfl
      have hpaid := ((pays_taggedType lookup).spends hrun).paid
      cases type with
      | element kind => cases kind <;> rfl
      | vector kind =>
        refine skipVector_congr (fun later state hlater => ?_)
          (fun _ _ _ _ => spends_of_skipElement) state'
        exact ih (by omega) (by omega) state
    · rw [AttributeValue.skipElement_of_ne hk, AttributeValue.skipElement_of_ne hk]

end

/-! ## Attributes -/

/-- The walk that counts ends as the plain one does, and it counts no more than there are bytes. -/
theorem tallyAttribute_eq (row : CustomAttributeRow) (visit : NamedArgument → Attempt σ Unit)
    (state : σ) : ∃ count ≤ assembly.valueSize row,
      assembly.tallyAttribute lookup row visit (state, 0) =
        ((assembly.eachNamedArgument lookup row visit state).1,
          ((assembly.eachNamedArgument lookup row visit state).2, count)) := by
  unfold tallyAttribute eachNamedArgument
  by_cases ht : row.constructor.table = .memberRef
  · rw [if_pos ht, if_pos ht]
    cases assembly.row MemberRefRow row.constructor.row with
    | error fault => exact ⟨0, Nat.zero_le _, rfl⟩
    | ok constructor =>
      rw [bind_liftM_ok, bind_liftM_ok]
      cases assembly.genericContext constructor with
      | error fault => exact ⟨0, Nat.zero_le _, rfl⟩
      | ok context =>
        rw [bind_liftM_ok, bind_liftM_ok, valueSize]
        cases assembly.blob row.value with
        | error fault => exact ⟨0, Nat.zero_le _, rfl⟩
        | ok value =>
          rw [bind_liftM_ok, bind_liftM_ok]
          refine Pays.onBytes ((pays_namedCount assembly lookup row constructor context).bind ?_)
            value state
          rintro (_ | count)
          · exact Pays.pure rfl
          · exact pays_visitNamed lookup visit count
  · rw [if_neg ht, if_neg ht]
    exact ⟨0, Nat.zero_le _, rfl⟩

/-- **An element that is passed over takes a byte at least, and an array that is passed over takes
    four bytes and one more for each element. So an array that claims more elements than there are
    bytes left is never passed over. The walk over the value of an attribute passes over no more
    elements than the value has bytes, however it ends, and the elements of every array are among
    them.** -/
theorem elements_paid (row : CustomAttributeRow) (visit : NamedArgument → Attempt σ Unit)
    (state : σ) :
    (∀ boxes kind cursor before stop after,
        skipElement lookup boxes kind (cursor, before) = (.ok true, (stop, after)) →
          stop.data = cursor.data ∧ cursor.pos + 1 ≤ stop.pos) ∧
      (∀ boxes kind cursor before stop after,
        skipVector (skipElement lookup boxes kind) (cursor, before) = (.ok true, (stop, after)) →
          stop.data = cursor.data ∧ cursor.pos + (4 + (arrayCount cursor).toNat) ≤ stop.pos) ∧
      (∀ boxes kind cursor before,
        cursor.remaining < 4 + (arrayCount cursor).toNat →
          (skipVector (skipElement lookup boxes kind) (cursor, before)).1 ≠ .ok true) ∧
      (∃ count ≤ assembly.valueSize row,
        assembly.tallyAttribute lookup row visit (state, 0) =
          ((assembly.eachNamedArgument lookup row visit state).1,
            ((assembly.eachNamedArgument lookup row visit state).2, count))) ∧
      ∀ boxes kind cursor before count stop after count',
        skipVector (tallied (tallyWithin lookup boxes kind)) (cursor, (before, count)) =
            (.ok true, (stop, (after, count'))) →
          count + (arrayCount cursor).toNat ≤ count' := by
  refine ⟨?_, ?_, ?_, assembly.tallyAttribute_eq lookup row visit state, ?_⟩
  · intro boxes kind cursor before stop after h
    have hspends := spends_of_skipElement h
    exact ⟨hspends.data_eq, hspends.le_pos Nat.one_pos⟩
  · intro boxes kind cursor before stop after h
    have hspends := spends_of_skipVector h
    exact ⟨hspends.data_eq, hspends.le_pos (by omega)⟩
  · intro boxes kind cursor before hshort h
    have hpaid := (spends_of_skipVector (Prod.ext h rfl)).paid
    omega
  · intro boxes kind cursor before count stop after count' h
    exact le_count_of_skipVector h

/-- A box with an array of one box, which holds an empty array. -/
def boxedArrays : ByteArray :=
  [0x1D, 0x51, 1, 0, 0, 0, 0x1D, 0x51, 0, 0, 0, 0].toByteArray

/-- An array that claims two bytes, and one byte. -/
def longArray : ByteArray :=
  [2, 0, 0, 0, 7].toByteArray

/-- Passing over the outer box. -/
def overBox : Except Fault Bool × Cursor × Unit :=
  skipElement shades 2 .boxed ({ data := boxedArrays }, ())

/-- Passing over the array in it. -/
def overArray : Except Fault Bool × Cursor × Unit :=
  skipVector (skipElement shades 1 .boxed) ({ data := boxedArrays, pos := 2 }, ())

/-- The same with a count. -/
def countedArray : Except Fault Bool × Cursor × Unit × Nat :=
  skipVector (tallied (tallyWithin shades 1 .boxed)) ({ data := boxedArrays, pos := 2 }, ((), 0))

/-- The array that claims too much is not passed over. An attribute that has two boxes inside each
    other in a fixed argument, and two in a named one, has four elements. -/
theorem elements_paid_boxes :
    (overBox = (.ok true, (overBox.2.1, ())) ∧ 0 + 1 ≤ overBox.2.1.pos) ∧
      (overArray = (.ok true, (overArray.2.1, ())) ∧ 2 + (4 + 1) ≤ overArray.2.1.pos) ∧
      (Cursor.remaining { data := longArray } < 4 + 2 ∧
        (skipVector (skipElement shades 0 (.primitive .byte)) ({ data := longArray }, ())).1 ≠
          .ok true) ∧
      (((boxing 1).tallyAttribute shades boxingRow (fun _ => pure ()) ((), 0)).2.2 = 4 ∧
        4 ≤ (boxing 1).valueSize boxingRow) ∧
      countedArray = (.ok true, (countedArray.2.1, ((), countedArray.2.2.2))) ∧
        0 + 1 ≤ countedArray.2.2.2 := by
  obtain ⟨helement, harray, hlong, ⟨count, hcount, htally⟩, hcounted⟩ :=
    (boxing 1).elements_paid shades boxingRow (fun _ => pure ()) ()
  have hbox : overBox = (.ok true, (overBox.2.1, ())) :=
    Prod.ext (eq_ok_of_toOption (by decide +kernel)) rfl
  have hvector : overArray = (.ok true, (overArray.2.1, ())) :=
    Prod.ext (eq_ok_of_toOption (by decide +kernel)) rfl
  have hrun : countedArray = (.ok true, (countedArray.2.1, ((), countedArray.2.2.2))) :=
    Prod.ext (eq_ok_of_toOption (by decide +kernel)) rfl
  have hshort : Cursor.remaining { data := longArray } < 4 + 2 := by decide
  have hfour : ((boxing 1).tallyAttribute shades boxingRow (fun _ => pure ()) ((), 0)).2.2 = 4 := by
    decide +kernel
  have hone : arrayCount { data := boxedArrays, pos := 2 } = 1 := by decide
  have htwo : arrayCount { data := longArray } = 2 := by decide
  have hbytes := (helement 2 .boxed { data := boxedArrays } () _ _ hbox).2
  have harray := (harray 1 .boxed { data := boxedArrays, pos := 2 } () _ _ hvector).2
  have hlong := hlong 0 (.primitive .byte) { data := longArray } ()
  have hcounted := hcounted 1 .boxed { data := boxedArrays, pos := 2 } () 0 _ _ _ hrun
  rw [hone] at harray hcounted
  rw [htwo] at hlong
  rw [htally] at hfour
  obtain rfl : count = 4 := hfour
  refine ⟨⟨hbox, hbytes⟩, ⟨hvector, harray⟩, ⟨hshort, hlong hshort⟩, ⟨?_, hcount⟩, hrun, hcounted⟩
  rw [htally]

end Assembly

end ApiCensus
