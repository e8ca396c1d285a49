/-
  Which fields are references, told by the trees of their types.

  * `SignatureType.beneathModifiers`: a type without the modifiers around it.
  * `Assembly.elementBehindModifiers_of_type`: the byte that is looked at is the one that the
    type beneath its modifiers begins with.
  * `Assembly.isReferenceField_iff`: so the field is a reference where that type is one.
-/
import ApiCensus.Feature.References
import ApiCensus.Proofs.Bytes.TypeToken
import ApiCensus.Proofs.Signature.Leading
import ApiCensus.Proofs.Signature.Tracking

namespace ApiCensus

open Attempt Signature

namespace SignatureType

/-- A type without the modifiers around it. -/
def beneathModifiers : SignatureType → SignatureType
  | .modified _ unmodified _ => beneathModifiers unmodified
  | tree => tree

variable {tree : SignatureType} {element : Element}

theorem beneathModifiers_of_element? (h : tree.element? = some element)
    (hplain : ∀ required, element ≠ .modifier required) : tree.beneathModifiers = tree := by
  cases tree with
  | modified modifier unmodified required => exact absurd (Option.some.inj h).symm (hplain required)
  | _ => rfl

theorem element?_eq_byReference_iff :
    tree.element? = some .byReference ↔ ∃ referred, tree = .byReference referred := by
  constructor
  · intro h
    cases tree with
    | byReference referred => exact ⟨referred, rfl⟩
    | definition _ form | reference _ form | specification _ form => cases form <;> cases h
    | _ => cases h
  · rintro ⟨referred, rfl⟩
    rfl

end SignatureType

namespace Assembly

theorem number_of_nominal {start stop : Cursor × Unit} {form : NominalForm} {tree : SignatureType}
    (h : nominal TypeBuilder.tree form start = (.ok tree, stop)) :
    ∃ value, Compressed.number start.1 = (.ok value, stop.1) := by
  obtain ⟨token, htoken, -⟩ := nominal_eq_ok h
  obtain ⟨value, _, hvalue, -⟩ := Compressed.token_eq_ok htoken
  exact ⟨value, hvalue⟩

/-- The modifiers are passed over with their tokens, so that the byte behind them is the one that
    the type begins with. -/
theorem elementBehindModifiers_of_type {limit left : Nat} {start stop : Cursor × Unit}
    {tree : SignatureType}
    (h : Signature.typeWithin TypeBuilder.tree limit start = (.ok tree, stop))
    (hleft : start.1.remaining < left) :
    ∃ element place, elementBehindModifiers left start.1 = (.ok element.code, place) ∧
      tree.beneathModifiers.element? = some element := by
  induction limit generalizing left start stop tree with
  | zero => exact absurd (congrArg Prod.fst h) (by simp [Signature.typeWithin])
  | succ limit ih =>
    obtain ⟨depth, element, middle, hdepth, helement, hbyte, hrest⟩ := typeWithin_eq_ok h
    obtain rfl := Nat.succ.inj hdepth
    obtain ⟨left, rfl⟩ := Nat.exists_eq_succ_of_ne_zero (Nat.ne_zero_of_lt hleft)
    by_cases hmodifier : element = .modifier true ∨ element = .modifier false
    · obtain ⟨required, rfl⟩ : ∃ required, element = .modifier required := by
        rcases hmodifier with rfl | rfl <;> exact ⟨_, rfl⟩
      obtain ⟨modifier, unmodified, place, _, hnominal, hinner, rfl⟩ := modifier_eq_ok hrest
      obtain ⟨value, hvalue⟩ := number_of_nominal hnominal
      have hbehind : place.1.remaining < left := by
        have hpassed := Cursor.remaining_of_byte hbyte
        have hkept := Compressed.readsOn_number _ middle.1 (Nat.le_refl _)
        rw [hvalue] at hkept
        have hless : place.1.remaining ≤ middle.1.remaining := hkept
        omega
      obtain ⟨element, last, hscan, hfound⟩ := ih hinner hbehind
      refine ⟨element, last, ?_, hfound⟩
      rw [elementBehindModifiers, bind_apply_ok hbyte,
        if_pos (hmodifier.imp (congrArg Element.code) (congrArg Element.code)),
        bind_apply_ok hvalue, hscan]
    · have hcode : ¬ (element.code = (Element.modifier true).code ∨
          element.code = (Element.modifier false).code) := fun hcode =>
        hmodifier (hcode.imp Element.code_inj Element.code_inj)
      have hplain : ∀ required, element ≠ .modifier required := by
        rintro (_ | _) rfl <;> simp at hmodifier
      refine ⟨element, middle.1, ?_, ?_⟩
      · rw [elementBehindModifiers, bind_apply_ok hbyte, if_neg hcode]
        rfl
      · rw [SignatureType.beneathModifiers_of_element? helement hplain, helement]

/-- **A field whose type can be read is a reference if its type, without the modifiers around it,
    is one, and no reference if not.** -/
theorem isReferenceField_iff {signature : ByteArray} {tree : SignatureType}
    (h : (fieldType TypeBuilder.tree ({ data := signature }, ())).1 = .ok tree) :
    (isReferenceField signature = .ok true ↔
      ∃ referred, tree.beneathModifiers = .byReference referred) ∧
    (isReferenceField signature = .ok false ↔
      ∀ referred, tree.beneathModifiers ≠ .byReference referred) := by
  rcases hrun : fieldType TypeBuilder.tree ({ data := signature }, ()) with ⟨answer, stop⟩
  rw [hrun] at h
  obtain rfl : answer = .ok tree := h
  obtain ⟨header, middle, hheader, hkind, htype⟩ := fieldType_eq_ok hrun
  have hleft : middle.1.remaining < signature.size + 1 := by
    have hkept := readsOn_header signature.size { data := signature } (Nat.sub_le _ _)
    rw [hheader] at hkept
    exact Nat.lt_succ_of_le hkept
  obtain ⟨element, place, hscan, helement⟩ := elementBehindModifiers_of_type htype hleft
  have hanswer : isReferenceField signature = .ok (element.code == Element.byReference.code) := by
    rw [isReferenceField]
    show Attempt.result (Signature.header >>= _) _ = _
    rw [result, bind_apply_ok hheader, if_pos hkind, bind_apply_ok hscan]
    rfl
  have href : (element.code == Element.byReference.code) = true ↔
      ∃ referred, tree.beneathModifiers = .byReference referred := by
    rw [← SignatureType.element?_eq_byReference_iff, helement, beq_iff_eq, Option.some.injEq]
    exact ⟨Element.code_inj, congrArg Element.code⟩
  rw [hanswer, Except.ok.injEq, Except.ok.injEq, ← Bool.not_eq_true, href]
  exact ⟨Iff.rfl, not_exists⟩

/-- A field that is a reference to a number, with a required modifier whose token has two bytes,
    and an optional one whose token has one. -/
def modifiedReference : ByteArray :=
  ⟨#[0x06, 0x1F, 0x81, 0x10, 0x20, 0x05, 0x10, 0x08]⟩

/-- A pointer to such a reference is none. -/
def referencePointer : ByteArray :=
  ⟨#[0x06, 0x1F, 0x81, 0x10, 0x0F, 0x20, 0x05, 0x10, 0x08]⟩

theorem isReferenceField_modified :
    isReferenceField modifiedReference = .ok true ∧
      isReferenceField referencePointer = .ok false := by
  have hreference : (fieldType TypeBuilder.tree ({ data := modifiedReference }, ())).1 =
      .ok (.modified (.definition (Token.ofRow .typeDef 68) .unstated)
        (.modified (.reference (Token.ofRow .typeRef 1) .unstated)
          (.byReference (.primitive .int32)) false) true) := rfl
  have hpointer : (fieldType TypeBuilder.tree ({ data := referencePointer }, ())).1 =
      .ok (.modified (.definition (Token.ofRow .typeDef 68) .unstated)
        (.pointer (.modified (.reference (Token.ofRow .typeRef 1) .unstated)
          (.byReference (.primitive .int32)) false)) true) := rfl
  exact ⟨(isReferenceField_iff hreference).1.2 ⟨_, rfl⟩, (isReferenceField_iff hpointer).2.2 nofun⟩

end Assembly

end ApiCensus
