/-
  What a type specification instantiates, told by the tree of its type.

  * `SignatureType.Instantiates`: the answer that goes with a tree; `Instantiates.unique`: there
    is no other one.
  * `Assembly.instantiatedType_eq_iff`: it is what is found for each type that can be read.
-/
import ApiCensus.Assembly.Naming
import ApiCensus.Proofs.Assembly.Owners
import ApiCensus.Proofs.Signature.Leading

namespace ApiCensus

open Attempt Signature

/-- The answer that goes with the type of a specification. What is instantiated is a class or a
    value type: it is the answer if a definition or a reference names it, and none is given if a
    specification does. Nothing else is generic, and any other type instantiates nothing. -/
inductive SignatureType.Instantiates (specification : Token) :
    SignatureType → Except Fault (Option Token) → Prop
  | definition {token form arguments} : token.table? = some .typeDef → form ≠ .unstated →
      Instantiates specification (.instantiation (.definition token form) arguments)
        (.ok (some token))
  | reference {token form arguments} : token.table? = some .typeRef → form ≠ .unstated →
      Instantiates specification (.instantiation (.reference token form) arguments)
        (.ok (some token))
  | specification {token form arguments} : token.table? = some .typeSpec → form ≠ .unstated →
      Instantiates specification (.instantiation (.specification token form) arguments) (.ok none)
  | malformed {generic arguments} {element : Element} : generic.element? = some element →
      element ≠ .classType → element ≠ .valueType →
      Instantiates specification (.instantiation generic arguments)
        (.error (.malformed (.instantiatedElement specification element.code.toNat)))
  | nothing {tree} : (∀ generic arguments, tree ≠ .instantiation generic arguments) →
      Instantiates specification tree (.ok none)

theorem SignatureType.Instantiates.unique {specification : Token} {tree : SignatureType}
    {answer other : Except Fault (Option Token)} (h : tree.Instantiates specification answer)
    (h' : tree.Instantiates specification other) : answer = other := by
  have hnominal : ∀ {form : NominalForm} {element : Element}, form ≠ .unstated →
      form.element? = some element → element ≠ .classType → element = .valueType := by
    intro form element hform helement hclass
    cases form with
    | classType => exact absurd (Option.some.inj helement).symm hclass
    | valueType => exact (Option.some.inj helement).symm
    | unstated => exact absurd rfl hform
  cases h with
  | definition _ hform | reference _ hform | specification _ hform =>
    cases h' with
    | malformed helement hclass hvalue => exact absurd (hnominal hform helement hclass) hvalue
    | nothing hplain => exact absurd rfl (hplain _ _)
    | _ => rfl
  | malformed helement hclass hvalue =>
    cases h' with
    | malformed helement' _ _ => rw [Option.some.inj (helement.symm.trans helement')]
    | nothing hplain => exact absurd rfl (hplain _ _)
    | _ _ hform => exact absurd (hnominal hform helement hclass) hvalue
  | nothing hplain =>
    cases h' with
    | nothing => rfl
    | _ => exact absurd rfl (hplain _ _)

namespace Assembly

variable {assembly : Assembly} {row : TypeSpecRow} {blob : ByteArray} {tree : SignatureType}

/-- A generic type is found with the table of its token. -/
theorem instantiates_of_nominal {start stop : Cursor × Unit} {form : NominalForm}
    {specification : Token} {arguments : List SignatureType}
    (h : nominal TypeBuilder.tree form start = (.ok tree, stop)) (hform : form ≠ .unstated) :
    (SignatureType.instantiation tree arguments).Instantiates specification
      (Attempt.result (do
        let target ← Compressed.token
        if target.isIn .typeDef || target.isIn .typeRef then pure (some target) else pure none)
        start.1) := by
  obtain ⟨token, htoken, htable⟩ := nominal_eq_ok h
  rw [result, bind_apply_ok htoken]
  rcases htable with ⟨htable, rfl⟩ | ⟨htable, rfl⟩ | ⟨htable, rfl⟩
  · rw [if_pos (by simp [Token.isIn_iff, htable])]
    exact .definition htable hform
  · rw [if_pos (by simp [Token.isIn_iff, htable])]
    exact .reference htable hform
  · rw [if_neg (by simp [Token.isIn_iff, htable])]
    exact .specification htable hform

theorem instantiates_of_type (hblob : assembly.blob row.signature = .ok blob)
    (h : (type TypeBuilder.tree ({ data := blob }, ())).1 = .ok tree) :
    tree.Instantiates row.token (assembly.instantiatedType row) := by
  rcases hrun : type TypeBuilder.tree ({ data := blob }, ()) with ⟨answer, stop⟩
  rw [hrun] at h
  obtain rfl : answer = .ok tree := h
  obtain ⟨depth, element, middle, -, helement, hbyte, hrest⟩ := typeWithin_eq_ok hrun
  rw [instantiatedType, hblob]
  show tree.Instantiates row.token (Attempt.result (Compressed.number >>= _) _)
  rw [result, bind_apply_ok (Compressed.number_of_byte hbyte element.code_lt)]
  by_cases hinstantiation : element = .instantiation
  · obtain rfl := hinstantiation
    obtain ⟨generic, arguments, _, hgeneric, rfl⟩ := instantiation_eq_ok hrest
    obtain ⟨_, inner, place, -, hinner, hbyte, hrest⟩ := typeWithin_eq_ok hgeneric
    rw [if_pos rfl, bind_apply_ok (Compressed.number_of_byte hbyte inner.code_lt)]
    by_cases hnominal : inner = .classType ∨ inner = .valueType
    · rw [if_pos (Element.isNominalCode_iff.2 hnominal)]
      rcases hnominal with rfl | rfl <;> exact instantiates_of_nominal hrest (by simp)
    · rw [if_neg fun hcode => hnominal (Element.isNominalCode_iff.1 hcode)]
      obtain ⟨hclass, hvalue⟩ := not_or.1 hnominal
      exact .malformed hinner hclass hvalue
  · have hcode : element.code.toNat ≠ Element.instantiation.code.toNat := fun hcode =>
      hinstantiation (Element.code_inj (UInt8.toNat_inj.1 hcode))
    rw [if_neg hcode]
    refine .nothing fun generic arguments htree => hinstantiation ?_
    rw [htree] at helement
    exact (Option.some.inj helement).symm

/-- **What is found of the type that a specification has is the answer that goes with the tree of
    the type, if that can be read.** -/
theorem instantiatedType_eq_iff (hblob : assembly.blob row.signature = .ok blob)
    (h : (type TypeBuilder.tree ({ data := blob }, ())).1 = .ok tree)
    {answer : Except Fault (Option Token)} :
    assembly.instantiatedType row = answer ↔ tree.Instantiates row.token answer := by
  have hfound := instantiates_of_type hblob h
  constructor
  · rintro rfl
    exact hfound
  · exact hfound.unique

/-- An assembly with a list, with what a specification instantiates, with an object that is
    instantiated and with an array. -/
def specified : Assembly :=
  .ofRows (fun _ => []) [0]
    [0, 5, 0x15, 0x12, 0x05, 0x01, 0x08, 5, 0x15, 0x11, 0x06, 0x01, 0x08, 4, 0x15, 0x1C, 0x01, 0x08,
      2, 0x1D, 0x08] {}

theorem instantiatedType_specified :
    specified.instantiatedType ⟨1, 1⟩ = .ok (some (Token.ofRow .typeRef 1)) ∧
      specified.instantiatedType ⟨2, 7⟩ = .ok none ∧
      specified.instantiatedType ⟨3, 13⟩ =
        .error (.malformed (.instantiatedElement (Token.ofRow .typeSpec 3) 0x1C)) ∧
      specified.instantiatedType ⟨4, 18⟩ = .ok none := by
  have hlist : (type TypeBuilder.tree
      ({ data := ⟨#[0x15, 0x12, 0x05, 0x01, 0x08]⟩ }, ())).1 = .ok (.instantiation
        (.reference (Token.ofRow .typeRef 1) .classType) [.primitive .int32]) := rfl
  have hagain : (type TypeBuilder.tree
      ({ data := ⟨#[0x15, 0x11, 0x06, 0x01, 0x08]⟩ }, ())).1 = .ok (.instantiation
        (.specification (Token.ofRow .typeSpec 1) .valueType) [.primitive .int32]) := rfl
  have hobject : (type TypeBuilder.tree ({ data := ⟨#[0x15, 0x1C, 0x01, 0x08]⟩ }, ())).1 =
      .ok (.instantiation (.primitive .object) [.primitive .int32]) := rfl
  have harray : (type TypeBuilder.tree ({ data := ⟨#[0x1D, 0x08]⟩ }, ())).1 =
      .ok (.vector (.primitive .int32)) := rfl
  have helement : (SignatureType.primitive .object).element? = some (.primitive .object) := rfl
  refine ⟨(instantiatedType_eq_iff ?_ hlist).2 (.reference rfl nofun),
    (instantiatedType_eq_iff ?_ hagain).2 (.specification rfl nofun),
    (instantiatedType_eq_iff ?_ hobject).2 (.malformed helement nofun nofun),
    (instantiatedType_eq_iff ?_ harray).2 (.nothing nofun)⟩ <;> rfl

end Assembly

end ApiCensus
