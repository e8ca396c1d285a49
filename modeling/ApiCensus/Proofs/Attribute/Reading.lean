/-
  Passing over the values of an attribute.

  * `Skips`: a value is passed over if its width is known, else the reading ends.
  * `EnumLookup.Answers`: what the look-up says does not depend on what it was asked before.
  * `reads_taggedType`: the type that stands before a value is read back.
  * `skips_argument`: a value of a type is passed over as a whole.
  * `reads_namedArgument`: a named argument is read, unless some part of its value has an
    unknown width.
-/
import ApiCensus.Proofs.Attribute.Encoding
import ApiCensus.Proofs.Signature.Reading

namespace ApiCensus

open Attempt Signature Signature.Decoding Assembly

variable {σ α β : Type} {kept : σ → Prop} {lookup : EnumLookup σ}
  {answers : EnumName → Option Primitive}

/-- The look-up gives these answers whenever `kept` holds of what it remembers. -/
def EnumLookup.Answers (lookup : EnumLookup σ) (kept : σ → Prop)
    (answers : EnumName → Option Primitive) : Prop :=
  ∀ name state, kept state → (lookup name state).1 = answers name ∧ kept (lookup name state).2

/-! ## Values that may have an unknown width -/

namespace Signature.Decoding

/-- The bytes are passed over if `known` holds; else the answer is `false`. -/
abbrev Skips (kept : σ → Prop) (known : Prop) (d : Decoding σ Bool) (bytes : List UInt8) : Prop :=
  ReadsOr kept known d bytes true (.ok false)

section
variable {d : Decoding σ Bool} {more : Decoding σ α} {front back bytes : List UInt8} {p q : Prop}
  {a b : α}

theorem readsOr_pure (hp : ¬ p) : ReadsOr kept p (pure b) bytes a (.ok b) :=
  ⟨fun h => absurd h hp, fun _ => (reads_pure b).ends⟩

/-- What follows a value is read if the value is passed over. -/
theorem Skips.bind (hd : Skips kept p d front) (hm : ReadsOr kept q more back a (.ok b)) :
    ReadsOr kept (p ∧ q) (d >>= fun known => if known then more else pure b) (front ++ back) a
      (.ok b) := by
  refine ⟨fun h => (hd.reads h.1).bind (hm.reads h.2), fun hn => ?_⟩
  by_cases hp : p
  · exact (hd.reads hp).bind_ends (hm.ends fun hq => hn ⟨hp, hq⟩)
  · exact (hd.ends hp).bind_pure rfl

theorem Skips.bind_reads (hd : Skips kept p d front) (hm : Reads kept more back a) :
    ReadsOr kept p (d >>= fun known => if known then more else pure b) (front ++ back) a (.ok b) :=
  (hd.bind hm.readsOr).congr (iff_of_eq (and_true p))

/-- How many bytes are left is known before they are passed over. -/
theorem Skips.remaining {f : Nat → Decoding σ Bool}
    (h : ∀ left, bytes.length ≤ left → Skips kept p (f left) bytes) :
    Skips kept p (get >>= fun place => f place.1.remaining) bytes := by
  have hleft : ∀ {cursor : Cursor} {back : List UInt8}, cursor.Sees (bytes ++ back) →
      bytes.length ≤ cursor.remaining := by
    intro cursor back hc
    have hl := hc.length_add
    rw [Cursor.remaining]
    omega
  refine ⟨fun hp => ?_, fun hn => ?_⟩
  · intro cursor state back hc hk
    obtain ⟨state', hk', hr⟩ := (h _ (hleft hc)).reads hp cursor state back hc hk
    exact ⟨state', hk', by rw [bind_apply_ok (get_apply _), hr]⟩
  · intro cursor state back hc hk
    obtain ⟨place, hk', hr⟩ := (h _ (hleft hc)).ends hn cursor state back hc hk
    exact ⟨place, hk', by rw [bind_apply_ok (get_apply _), hr]⟩

theorem skips_all {step : Decoding σ Bool} {known : α → Prop} {encode : α → List UInt8}
    {items : List α} (h : ∀ item ∈ items, Skips kept (known item) step (encode item)) :
    Skips kept (∀ item ∈ items, known item) (skipAll step items.length)
      (items.flatMap encode) := by
  induction items with
  | nil => exact (reads_pure true).readsOr.congr (by simp)
  | cons item items ih =>
    have hi := h item (by simp)
    have hr := ih fun other ho => h other (by simp [ho])
    rw [List.flatMap_cons]
    exact (hi.bind hr).congr (by simp)

end

end Signature.Decoding

/-! ## Types -/

theorem reads_ask (hl : lookup.Answers kept answers) (name : EnumName) :
    Reads kept (build (ExceptT.lift (lookup name))) [] (answers name) := by
  refine reads_build fun state hk => ?_
  obtain ⟨hanswer, hkept⟩ := hl name state hk
  refine ⟨(lookup name state).2, hkept, ?_⟩
  rw [← hanswer]
  rfl

theorem ofCode?_value {type : Primitive}
    (h : Primitive.boolean.code ≤ type.code ∧ type.code ≤ Primitive.string.code) :
    ElementKind.ofCode? type.code = some (.primitive type) := by
  rw [ElementKind.ofCode?, if_pos h, Primitive.ofCode?_code]
  rfl

theorem reads_kindOfTag (hl : lookup.Answers kept answers) {tag : ElementTag}
    (ht : tag.WellFormed) : Reads kept (kindOfTag lookup tag.code) tag.tail (tag.kind answers) := by
  cases tag with
  | primitive type =>
    rw [kindOfTag, ElementTag.code, ofCode?_value ht]
    exact reads_pure _
  | typeName => exact reads_pure _
  | object => exact reads_pure _
  | enum name =>
    refine (reads_read (SerializedText.reads_read ht)).bind_nil ?_
    rw [ElementTag.kind]
    cases name.bind EnumName.parse? with
    | none => exact reads_pure _
    | some name => exact (reads_ask hl name).bind_nil (reads_pure _)

theorem code_ne_vectorTag {tag : ElementTag} (ht : tag.WellFormed) : tag.code ≠ vectorTag := by
  cases tag with
  | primitive type =>
    intro hc
    have hle : vectorTag ≤ Primitive.string.code := hc ▸ ht.2
    exact absurd hle (by decide)
  | typeName => decide
  | object => decide
  | enum name => exact (by decide : (0x55 : UInt8) ≠ vectorTag)

/-- The type that stands before a value is read back. -/
theorem reads_taggedType (hl : lookup.Answers kept answers) {tag : TypeTag}
    (ht : tag.inner.WellFormed) :
    Reads kept (taggedType lookup) tag.encode (tag.type answers) := by
  cases tag with
  | element tag =>
    have hcode : tag.code ≠ vectorTag := code_ne_vectorTag ht
    refine (reads_byte tag.code).bind ?_
    rw [if_neg hcode]
    exact (reads_kindOfTag hl ht).bind_nil (reads_pure _)
  | vector tag =>
    have hcode : tag.code ≠ vectorTag := code_ne_vectorTag ht
    refine (reads_byte vectorTag).bind ?_
    rw [if_pos rfl]
    refine (reads_byte tag.code).bind ?_
    rw [if_neg hcode]
    exact (reads_kindOfTag hl ht).bind_nil (reads_pure _)

/-! ## Values -/

namespace AttributeValue

theorem skipPlain_of_width {kind : ElementKind} {width : Nat} (h : kind.width? = some width) :
    (skipPlain kind : Decoding σ Bool) = read (Cursor.advance width) >>= fun _ => pure true := by
  unfold skipPlain
  split
  · simp [ElementKind.width?] at h
  · simp [ElementKind.width?] at h
  · rw [h]

theorem skips_plain {value : AttributeValue} {kind : ElementKind}
    (h : value.HasType answers (.element kind)) (hk : kind ≠ .boxed) :
    Skips kept (value.isReadable = true) (skipPlain kind) value.encode := by
  cases h with
  | @number type bytes hw =>
    rw [skipPlain_of_width hw]
    refine ReadsOr.congr (Reads.readsOr ?_) (p := True) (by simp [isReadable])
    exact (reads_read (Cursor.reads_advance bytes)).bind_nil (reads_pure true)
  | string hf =>
    refine ReadsOr.congr (Reads.readsOr ?_) (p := True) (by simp [isReadable])
    exact (reads_read (SerializedText.reads_skip hf)).bind_nil (reads_pure true)
  | typeName hf =>
    refine ReadsOr.congr (Reads.readsOr ?_) (p := True) (by simp [isReadable])
    exact (reads_read (SerializedText.reads_skip hf)).bind_nil (reads_pure true)
  | @hidden bytes =>
    exact readsOr_pure (by simp [isReadable])
  | boxed => exact absurd rfl hk

theorem signed_of_lt {n : Nat} (h : n < 0x80000000) : LittleEndian.signed 4 n = n := by
  refine Int.bmod_eq_of_le ?_ ?_ <;> simp only [LittleEndian.bound] <;> omega

/-- An array is passed over, given that its elements are. -/
theorem skips_vector {value : AttributeValue} {kind : ElementKind} {element : Decoding σ Bool}
    (h : value.HasType answers (.vector kind))
    (he : ∀ elements, value = .vector elements → ∀ item ∈ elements,
      item.HasType answers (.element kind) →
        Skips kept (item.isReadable = true) element item.encode) :
    Skips kept (value.isReadable = true) (skipVector element) value.encode := by
  cases h with
  | null =>
    have hcount : Reads kept (read (Cursor.number 4)) _ 0xFFFFFFFF :=
      reads_read (Cursor.reads_number (by decide))
    exact (hcount.bind_nil (reads_pure true)).readsOr.congr (by simp [isReadable])
  | @vector _ elements hlen htyped =>
    have hcount : Reads kept (read (Cursor.number 4)) _ elements.length :=
      reads_read (Cursor.reads_number (by simp only [LittleEndian.bound]; omega))
    have hall := skips_all fun item hi => he elements rfl item hi (htyped item hi)
    rw [encode, encodeAll_eq_flatMap]
    refine (hcount.bind_or ?_).congr (by rw [isReadable, allReadable_iff])
    rw [signed_of_lt hlen, if_neg (by omega)]
    exact hall

theorem skipElement_of_ne {kind : ElementKind} (hk : kind ≠ .boxed) (boxes : Nat) :
    skipElement lookup boxes kind = skipPlain kind := by
  cases kind with
  | boxed => exact absurd rfl hk
  | _ => cases boxes <;> rfl

theorem kind_ne_boxed {tag : ElementTag} (ht : tag ≠ .object) : tag.kind answers ≠ .boxed := by
  cases tag with
  | object => exact absurd rfl ht
  | enum name =>
    rw [ElementTag.kind, ElementKind.ofUnderlying]
    split <;> simp
  | _ => simp [ElementTag.kind]

/-- A single value is passed over if as many boxes may lie inside each other as do. -/
theorem skips_element (hl : lookup.Answers kept answers) {value : AttributeValue}
    {kind : ElementKind} {boxes : Nat} (h : value.HasType answers (.element kind))
    (hd : value.depth ≤ boxes) :
    Skips kept (value.isReadable = true) (skipElement lookup boxes kind) value.encode := by
  -- On the number of boxes: a box holds a plain value, or an array of what has fewer of them.
  induction boxes generalizing value kind with
  | zero =>
    have hk : kind ≠ .boxed := by
      rintro rfl
      cases h with
      | boxed => simp [depth] at hd
    rw [skipElement_of_ne hk]
    exact skips_plain h hk
  | succ boxes ih =>
    by_cases hk : kind = .boxed
    · obtain rfl := hk
      cases h with
      | @boxed tag inner ht ho hi =>
        have hdepth : inner.depth ≤ boxes := Nat.le_of_succ_le_succ hd
        refine (reads_taggedType hl ht).bind_or ?_
        cases tag with
        | element tag =>
          have hne : tag.kind answers ≠ .boxed := kind_ne_boxed fun hobject => ho (by rw [hobject])
          have hplain : Skips kept _ (skipPlain (tag.kind answers)) _ := skips_plain hi hne
          rw [TypeTag.type]
          cases hkind : tag.kind answers with
          | boxed => exact absurd hkind hne
          | _ => rwa [hkind] at hplain
        | vector tag =>
          refine skips_vector hi fun elements he item hitem htyped => ih htyped ?_
          rw [he] at hdepth
          exact depthOfAll_le.1 hdepth item hitem
    · rw [skipElement_of_ne hk]
      exact skips_plain h hk

mutual

/-- No more boxes lie inside each other than there are bytes. -/
theorem depth_le_length : (value : AttributeValue) → value.depth ≤ value.encode.length
  | .number _ | .text _ | .hidden _ | .null => Nat.zero_le _
  | .boxed tag value => by
    have hvalue := depth_le_length value
    have htag : 0 < tag.encode.length := by cases tag <;> simp [TypeTag.encode]
    rw [depth, encode, List.length_append]
    omega
  | .vector elements => by
    have helements := depthOfAll_le_length elements
    rw [depth, encode, List.length_append]
    omega

theorem depthOfAll_le_length :
    (values : List AttributeValue) → depthOfAll values ≤ (encodeAll values).length
  | [] => Nat.zero_le _
  | value :: values => by
    have hvalue := depth_le_length value
    have hvalues := depthOfAll_le_length values
    rw [depthOfAll, encodeAll, List.length_append]
    omega

end

/-- **A value is passed over as a whole, unless a part of it has an unknown width.** -/
theorem skips_argument (hl : lookup.Answers kept answers) {value : AttributeValue}
    {type : ArgumentType} (h : value.HasType answers type) :
    Skips kept (value.isReadable = true) (skipArgument lookup type) value.encode := by
  have hdepth : ∀ left, value.encode.length ≤ left → value.depth ≤ left + 1 := by
    intro left hleft
    have hle := value.depth_le_length
    omega
  cases type with
  | element kind =>
    exact Skips.remaining fun left hleft => skips_element hl h (hdepth left hleft)
  | vector kind =>
    refine Skips.remaining (f := fun left => skipVector (skipElement lookup (left + 1) kind)) ?_
    intro left hleft
    refine skips_vector h fun elements he item hi ht => skips_element hl ht ?_
    have hd := hdepth left hleft
    rw [he] at hd
    exact depthOfAll_le.1 hd item hi

end AttributeValue

/-! ## Named arguments -/

namespace NamedValue

theorem reads_target (target : ArgumentTarget) :
    Reads kept (argumentTarget (targetCode target)) [] target := by
  cases target <;> exact reads_pure _

theorem not_readable_of_unknown {value : AttributeValue}
    (h : value.HasType answers (.element .unknown)) : value.isReadable ≠ true := by
  cases h
  simp [AttributeValue.isReadable]

/-- **A named argument is read if no part of its value has an unknown width, else the reading
    ends.** -/
theorem reads_namedArgument (hl : lookup.Answers kept answers) {argument : NamedValue}
    (h : argument.WellFormed answers) :
    ReadsOr kept (argument.value.isReadable = true) (Assembly.namedArgument lookup)
      argument.encode (some argument.argument) (.ok none) := by
  refine (reads_byte (targetCode argument.target)).bind_or
    ((reads_target argument.target).bind_or ((reads_taggedType hl h.tag).bind_or ?_))
  by_cases hu : argument.tag.type answers = .element .unknown
  · rw [if_pos hu]
    exact readsOr_pure (not_readable_of_unknown (hu ▸ h.value))
  · rw [if_neg hu]
    refine (reads_read (SerializedText.reads_read h.name)).bind_or ?_
    have hvalue : Skips kept _ _ argument.value.encode := AttributeValue.skips_argument hl h.value
    have hread := hvalue.bind_reads (b := none) (reads_pure (some argument.argument))
    rwa [List.append_nil] at hread

end NamedValue

end ApiCensus
