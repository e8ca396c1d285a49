/-
  What a type in a signature begins with.

  * `Element.code_eq_of_ofCode?`: an element has the byte that it was found by.
  * `Compressed.number_of_byte`, `Element.reads_code`: read as a compressed number, that byte is
    the same.
  * `SignatureType.element?`: the element that a tree begins with.
  * `Signature.typeWithin_eq_ok`: the first byte of a type that is read, and what follows it.
  * `Signature.nominal_eq_ok`: the token of a named type that is read, and its table.
  * `Signature.parameters_succ_cases`: a parameter that is read, with or without the mark.
-/
import ApiCensus.Proofs.Bytes.Passing
import ApiCensus.Proofs.Signature.Folding

namespace ApiCensus

open Attempt Signature Signature.Decoding

/-! ## Elements and their bytes -/

namespace Signature.Element

/-- An element has the byte that it was found by. -/
theorem code_eq_of_ofCode? {code : UInt8} {element : Element} (h : ofCode? code = some element) :
    element.code = code := by
  have hall : ∀ n < 256, (ofCode? (UInt8.ofNat n)).all (·.code == UInt8.ofNat n) = true := by
    decide +kernel
  have hcode := hall code.toNat code.toNat_lt
  rw [UInt8.ofNat_toNat, h] at hcode
  exact eq_of_beq hcode

theorem code_inj {element other : Element} (h : element.code = other.code) : element = other := by
  have hfound := ofCode?_code element
  rw [h, ofCode?_code] at hfound
  exact (Option.some.inj hfound).symm

/-- The byte of an element needs no second one as a compressed number. -/
theorem code_lt (element : Element) : element.code < 0x80 := by
  cases element with
  | primitive type => cases type <;> decide
  | modifier required => cases required <;> decide
  | _ => decide

theorem isNominalCode_iff {element : Element} :
    isNominalCode element.code.toNat ↔ element = .classType ∨ element = .valueType := by
  rw [isNominalCode, Bool.or_eq_true, beq_iff_eq, beq_iff_eq, UInt8.toNat_inj, UInt8.toNat_inj]
  exact or_congr ⟨code_inj, congrArg code⟩ ⟨code_inj, congrArg code⟩

end Signature.Element

theorem Compressed.number_of_byte {start stop : Cursor} {code : UInt8}
    (h : Cursor.byte start = (.ok code, stop)) (hlt : code < 0x80) :
    Compressed.number start = (.ok code.toNat, stop) := by
  rw [number, bind_apply_ok h, if_pos hlt]
  rfl

/-- Read as a compressed number, the byte of an element is the same. -/
theorem Signature.Element.reads_code (element : Element) :
    Cursor.Reads Compressed.number [element.code] element.code.toNat :=
  fun cursor back hsees =>
    Compressed.number_of_byte (Cursor.reads_byte element.code cursor back hsees) element.code_lt

/-! ## The element of a tree -/

/-- The element before a token; before that of a modifier there is none. -/
def NominalForm.element? : NominalForm → Option Element
  | .classType => some .classType
  | .valueType => some .valueType
  | .unstated => none

/-- The element that a type begins with. The type of a modifier has none. -/
def SignatureType.element? : SignatureType → Option Element
  | .primitive type => some (.primitive type)
  | .definition _ form | .reference _ form | .specification _ form => form.element?
  | .vector _ => some .vector
  | .array _ _ => some .array
  | .byReference _ => some .byReference
  | .pointer _ => some .pointer
  | .pinned _ => some .pinned
  | .instantiation _ _ => some .instantiation
  | .typeParameter _ => some .typeParameter
  | .methodParameter _ => some .methodParameter
  | .modified _ _ required => some (.modifier required)
  | .functionPointer _ => some .functionPointer

namespace Signature

variable {start stop : Cursor × Unit} {tree : SignatureType}

/-- A named type has the token that is read, which is in one of the tables of types. -/
theorem nominal_eq_ok {form : NominalForm}
    (h : nominal TypeBuilder.tree form start = (.ok tree, stop)) :
    ∃ token, Compressed.token start.1 = (.ok token, stop.1) ∧
      ((token.table? = some .typeDef ∧ tree = .definition token form) ∨
        (token.table? = some .typeRef ∧ tree = .reference token form) ∨
        (token.table? = some .typeSpec ∧ tree = .specification token form)) := by
  obtain ⟨token, middle, htoken, h⟩ := bind_eq_ok h
  refine ⟨token, ?_⟩
  rw [read_eq_ok htoken]
  generalize token.table? = table at h ⊢
  split at h
  · obtain ⟨rfl, hstop⟩ := build_pure_eq_ok h
    exact ⟨by rw [hstop], .inl ⟨rfl, rfl⟩⟩
  · obtain ⟨rfl, hstop⟩ := build_pure_eq_ok h
    exact ⟨by rw [hstop], .inr (.inl ⟨rfl, rfl⟩)⟩
  · obtain ⟨rfl, hstop⟩ := build_pure_eq_ok h
    exact ⟨by rw [hstop], .inr (.inr ⟨rfl, rfl⟩)⟩
  · exact absurd (congrArg Prod.fst h) (by simp)

theorem element?_of_nominal {form : NominalForm}
    (h : nominal TypeBuilder.tree form start = (.ok tree, stop)) :
    tree.element? = form.element? := by
  obtain ⟨token, -, ⟨-, rfl⟩ | ⟨-, rfl⟩ | ⟨-, rfl⟩⟩ := nominal_eq_ok h <;> rfl

theorem instantiation_eq_ok {inner : Decoding Unit SignatureType}
    (h : typeFrom TypeBuilder.tree inner .instantiation start = (.ok tree, stop)) :
    ∃ generic arguments middle, inner start = (.ok generic, middle) ∧
      tree = .instantiation generic arguments := by
  obtain ⟨generic, middle, hgeneric, h⟩ := bind_eq_ok h
  obtain ⟨count, _, -, h⟩ := bind_eq_ok h
  split at h
  · exact absurd (congrArg Prod.fst h) (by simp)
  obtain ⟨arguments, _, -, h⟩ := bind_eq_ok h
  exact ⟨generic, arguments, middle, hgeneric, (build_pure_eq_ok h).1⟩

theorem modifier_eq_ok {inner : Decoding Unit SignatureType} {required : Bool}
    (h : typeFrom TypeBuilder.tree inner (.modifier required) start = (.ok tree, stop)) :
    ∃ modifier unmodified middle place,
      nominal TypeBuilder.tree .unstated start = (.ok modifier, middle) ∧
      inner middle = (.ok unmodified, place) ∧ tree = .modified modifier unmodified required := by
  obtain ⟨modifier, middle, hmodifier, h⟩ := bind_eq_ok h
  obtain ⟨unmodified, place, hunmodified, h⟩ := bind_eq_ok h
  exact ⟨modifier, unmodified, middle, place, hmodifier, hunmodified, (build_pure_eq_ok h).1⟩

/-- What is read behind an element begins with it. -/
theorem element?_of_typeFrom {inner : Decoding Unit SignatureType} {element : Element}
    (h : typeFrom TypeBuilder.tree inner element start = (.ok tree, stop)) :
    tree.element? = some element := by
  cases element with
  | primitive type =>
    obtain ⟨rfl, -⟩ := build_pure_eq_ok h
    rfl
  | classType | valueType => exact element?_of_nominal h
  | pointer | byReference | pinned | vector | typeParameter | methodParameter | functionPointer =>
    obtain ⟨part, _, -, h⟩ := bind_eq_ok h
    obtain ⟨rfl, -⟩ := build_pure_eq_ok h
    rfl
  | array =>
    obtain ⟨part, _, -, h⟩ := bind_eq_ok h
    obtain ⟨shape, _, -, h⟩ := bind_eq_ok h
    obtain ⟨rfl, -⟩ := build_pure_eq_ok h
    rfl
  | modifier =>
    obtain ⟨modifier, unmodified, _, _, -, -, rfl⟩ := modifier_eq_ok h
    rfl
  | instantiation =>
    obtain ⟨generic, arguments, _, -, rfl⟩ := instantiation_eq_ok h
    rfl

/-- **A type that is read has an element in front, and was read from what follows that.** -/
theorem typeWithin_eq_ok {limit : Nat}
    (h : typeWithin TypeBuilder.tree limit start = (.ok tree, stop)) :
    ∃ depth element middle, limit = depth + 1 ∧ tree.element? = some element ∧
      Cursor.byte start.1 = (.ok element.code, middle.1) ∧
      typeFrom TypeBuilder.tree (typeWithin TypeBuilder.tree depth) element middle =
        (.ok tree, stop) := by
  cases limit with
  | zero => exact absurd (congrArg Prod.fst h) (by simp [typeWithin])
  | succ depth =>
    obtain ⟨code, middle, hcode, h⟩ := bind_eq_ok h
    cases hfound : Element.ofCode? code with
    | none =>
      rw [hfound] at h
      exact absurd (congrArg Prod.fst h) (by simp)
    | some element =>
      rw [hfound] at h
      obtain rfl := Element.code_eq_of_ofCode? hfound
      exact ⟨depth, element, middle, rfl, element?_of_typeFrom h, read_eq_ok hcode, h⟩

/-- A parameter and those behind it. -/
def parameterThen {σ α : Type} (type : Decoding σ α) (index : Nat) (mark : Option Nat)
    (left : Nat) : Decoding σ (List α × Option Nat) :=
  type >>= fun parameter => parameters type index mark left >>= fun listed =>
    pure (parameter :: listed.1, listed.2)

/-- A look at the next byte leaves everything as it is. -/
theorem peek_eq_ok {σ : Type} {place place' : Cursor × σ} {next : UInt8}
    (h : (read Cursor.peek : Decoding σ UInt8) place = (.ok next, place')) :
    Cursor.peek place.1 = (.ok next, place.1) ∧ place' = place := by
  have hresult : (Cursor.peek place.1).1 = .ok next := congrArg Prod.fst h
  have hplace : ((Cursor.peek place.1).2, place.2) = place' := congrArg Prod.snd h
  have hstay : (Cursor.peek place.1).2 = place.1 := by
    rw [Cursor.peek]
    split <;> rfl
  rw [hstay] at hplace
  exact ⟨Prod.ext hresult hstay, hplace.symm⟩

theorem passes_of_peek {cursor stop : Cursor} {next : UInt8}
    (hpeek : Cursor.peek cursor = (.ok next, cursor))
    (h : Cursor.advance 1 cursor = (.ok (), stop)) : cursor.Passes [next] stop := by
  obtain ⟨-, rfl⟩ := Cursor.advance_eq_ok h
  exact Cursor.passes_of_getElem? (Cursor.peek_eq_ok hpeek).1

/-- Before a parameter there may be the mark, unless it has been seen before. -/
theorem parameters_succ_cases {σ α : Type} {type : Decoding σ α} {index left : Nat}
    {mark : Option Nat} {place stop : Cursor × σ} {listed : List α × Option Nat}
    (h : parameters type index mark (left + 1) place = (.ok listed, stop)) :
    (mark = none ∧ ∃ before, place.1.Passes [Element.sentinel] before ∧
      parameterThen type (index + 1) (some index) left (before, place.2) = (.ok listed, stop)) ∨
    ((∃ next, Cursor.peek place.1 = (.ok next, place.1) ∧ next ≠ Element.sentinel) ∧
      parameterThen type (index + 1) mark left place = (.ok listed, stop)) := by
  obtain ⟨next, middle, hread, h⟩ := bind_eq_ok h
  obtain ⟨hpeek, hmiddle⟩ := peek_eq_ok hread
  rw [hmiddle] at h
  by_cases hmark : next = Element.sentinel
  · rw [if_pos (beq_iff_eq.2 hmark)] at h
    subst hmark
    cases mark with
    | some known =>
      obtain ⟨_, _, hfail, -⟩ := bind_eq_ok h
      exact absurd (congrArg Prod.fst hfail) (by simp)
    | none =>
      obtain ⟨_, before, hadvance, h⟩ := bind_eq_ok h
      obtain ⟨hresult, hbefore⟩ := Prod.mk.inj hadvance
      have hpassed := passes_of_peek hpeek (Prod.ext hresult (congrArg Prod.fst hbefore))
      have hstate : place.2 = before.2 := by rw [← hbefore]
      rw [hstate]
      exact .inl ⟨rfl, before.1, hpassed, h⟩
  · rw [if_neg (by simpa using hmark)] at h
    exact .inr ⟨⟨next, hpeek, hmark⟩, h⟩

theorem fieldType_eq_ok (h : fieldType TypeBuilder.tree start = (.ok tree, stop)) :
    ∃ head middle, header start.1 = (.ok head, middle.1) ∧ head.kind = .field ∧
      type TypeBuilder.tree middle = (.ok tree, stop) := by
  obtain ⟨head, middle, hhead, h⟩ := bind_eq_ok h
  by_cases hkind : head.kind = .field
  · rw [if_pos hkind] at h
    exact ⟨head, middle, read_eq_ok hhead, hkind, h⟩
  · rw [if_neg hkind] at h
    exact absurd (congrArg Prod.fst h) (by simp)

end Signature

end ApiCensus
