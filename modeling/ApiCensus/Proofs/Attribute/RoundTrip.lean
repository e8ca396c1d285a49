/-
  The named arguments of an attribute are listed from its bytes.

  * `Assembly.reads_parameterType`: the type of a parameter is read from the signature of the
    constructor.
  * `Assembly.skips_fixed`: the fixed arguments are passed over along that signature.
  * `Assembly.reads_namedCount`: what stands before the named arguments is passed over.
  * `Assembly.visitNamed_collects`: the named arguments up to one of unknown width are collected.
  * `Assembly.namedArguments_encoded`: the same for the row of an attribute.
-/
import ApiCensus.Proofs.Assembly.Owners
import ApiCensus.Proofs.Attribute.Reading
import ApiCensus.Proofs.Attribute.Visiting
import ApiCensus.Proofs.Signature.RoundTrip

namespace ApiCensus.Assembly

open Attempt Signature Signature.Decoding

variable {σ τ : Type} {kept : σ → Prop} {lookup : EnumLookup σ}
  {answers : EnumName → Option Primitive} {assembly : Assembly}

/-! ## Named types -/

theorem enumKind?_integral {underlying : Primitive} (h : underlying.isIntegral) :
    enumKind? (some underlying) = some (.primitive underlying) := by
  rw [enumKind?, ElementKind.ofUnderlying, Option.filter_some, if_pos h]

theorem reads_systemType {type : TypeRefRow} (hns : assembly.text type.nameSpace = .ok "System")
    (hn : assembly.text type.name = .ok "Type") :
    Reads kept (assembly.referencedKind lookup type) [] (some .typeName) := by
  refine (reads_ofExcept hns).bind (Reads.ite_pos rfl ?_)
  refine (reads_ofExcept hn).bind ((reads_pure _).bind (Reads.ite_pos rfl ?_))
  exact reads_pure _

theorem reads_foreignKind (hl : lookup.Answers kept answers) {type : TypeRefRow} {enum : EnumName}
    {underlying : Primitive} (he : assembly.enumNameOf type = .ok (some enum))
    (ha : answers enum = some underlying) (hi : underlying.isIntegral) :
    Reads kept (assembly.foreignKind lookup type) [] (some (.primitive underlying)) := by
  refine (reads_ofExcept he).bind ((reads_ask hl enum).bind ?_)
  rw [ha, enumKind?_integral hi]
  exact reads_pure _

theorem reads_referencedKind {type : TypeRefRow} {nameSpace name : String} {kind : ElementKind}
    (hns : assembly.text type.nameSpace = .ok nameSpace)
    (hn : assembly.text type.name = .ok name) (ho : ¬ (nameSpace = "System" ∧ name = "Type"))
    (hk : Reads kept (assembly.foreignKind lookup type) [] (some kind)) :
    Reads kept (assembly.referencedKind lookup type) [] (some kind) := by
  by_cases hs : nameSpace = "System"
  · have hname : name ≠ "Type" := fun hname => ho ⟨hs, hname⟩
    refine (reads_ofExcept hns).bind (Reads.ite_pos (beq_iff_eq.2 hs) ?_)
    refine (reads_ofExcept hn).bind ((reads_pure _).bind (Reads.ite_neg ?_ hk))
    exact fun h => hname (beq_iff_eq.1 h)
  · refine (reads_ofExcept hns).bind (Reads.ite_neg (fun h => hs (beq_iff_eq.1 h)) ?_)
    exact (reads_pure _).bind (Reads.ite_neg (by simp) hk)

theorem reads_nominalKind_typeRef {token : Token} {type : TypeRefRow} {kind : ElementKind}
    (hi : token.isIn .typeRef) (hr : assembly.row TypeRefRow token.row = .ok type)
    (hk : Reads kept (assembly.referencedKind lookup type) [] (some kind)) :
    Reads kept (assembly.nominalKind lookup token) [] (some kind) := by
  unfold nominalKind
  rw [Token.table?_of_isIn hi]
  exact (reads_ofExcept hr).bind hk

theorem reads_nominalKind_typeDef {token : Token} {type : TypeDefRow} {underlying : Primitive}
    (hi : token.isIn .typeDef) (hr : assembly.row TypeDefRow token.row = .ok type)
    (hu : assembly.underlyingType type = .ok (some underlying)) (hk : underlying.isIntegral) :
    Reads kept (assembly.nominalKind lookup token) [] (some (.primitive underlying)) := by
  unfold nominalKind
  rw [Token.table?_of_isIn hi]
  refine (reads_ofExcept hr).bind ((reads_ofExcept hu).bind ?_)
  rw [enumKind?_integral hk]
  exact reads_pure _

/-! ## Parameters -/

section
variable {onVector onGeneric : Decoding σ (Option ArgumentType)}

theorem reads_handle {table : TableId} {token : Token} {form : NominalForm} {kind : ElementKind}
    (ht : Compressed.IsTypeTable table) (hf : form ≠ .unstated) (hi : token.isIn table)
    (hk : Reads kept (assembly.nominalKind lookup token) [] (some kind)) :
    Reads kept (assembly.parameterBy lookup onVector onGeneric)
      (form.encode ++ Compressed.encodeToken table token.row) (some (.element kind)) := by
  have htoken : Reads kept
      (do
        let token ← read Compressed.token
        let kind ← assembly.nominalKind lookup token
        pure (kind.map ArgumentType.element))
      (Compressed.encodeToken table token.row) (some (.element kind)) :=
    (reads_read (reads_tableToken ht hi)).bind_nil (hk.bind (reads_pure _))
  cases form with
  | classType => exact (reads_byte Element.classType.code).bind htoken
  | valueType => exact (reads_byte Element.valueType.code).bind htoken
  | unstated => exact absurd rfl hf

/-- The type of a parameter that is no array. -/
theorem reads_single (hl : lookup.Answers kept answers) {parameter : SignatureType}
    {kind : ElementKind} (h : assembly.IsParameter answers parameter (.element kind)) :
    Reads kept (assembly.parameterBy lookup onVector onGeneric) parameter.encode
      (some (.element kind)) := by
  cases h with
  | @primitive type hlow hhigh =>
    refine (reads_byte type.code).bind ?_
    rw [ofCode?_value ⟨hlow, hhigh⟩]
    exact reads_pure _
  | object => exact (reads_byte Primitive.object.code).bind (reads_pure _)
  | systemType hf hi hr hns hn =>
    exact reads_handle (Or.inr (Or.inl rfl)) hf hi
      (reads_nominalKind_typeRef hi hr (reads_systemType hns hn))
  | foreignEnum hf hi hr hns hn ho he ha hu =>
    exact reads_handle (Or.inr (Or.inl rfl)) hf hi
      (reads_nominalKind_typeRef hi hr
        (reads_referencedKind hns hn ho (reads_foreignKind hl he ha hu)))
  | localEnum hf hi hr hu hk =>
    exact reads_handle (Or.inl rfl) hf hi (reads_nominalKind_typeDef hi hr hu hk)

end

/-- The type of a parameter, inside a generic instantiation or outside of one. -/
theorem reads_parameterType (hl : lookup.Answers kept answers) {parameter : SignatureType}
    {type : ArgumentType} (h : assembly.IsParameter answers parameter type)
    (context : Option Cursor) :
    Reads kept (assembly.parameterType lookup context) parameter.encode (some type) := by
  have hvector : ∀ {element : SignatureType} {kind : ElementKind}
      {onVector onGeneric onGeneric' : Decoding σ (Option ArgumentType)},
      assembly.IsParameter answers element (.element kind) →
        Reads kept
          (assembly.parameterBy lookup
            (vectorOf (assembly.parameterBy lookup onVector onGeneric)) onGeneric')
          (SignatureType.vector element).encode (some (.vector kind)) := by
    intro element kind onVector onGeneric onGeneric' he
    refine (reads_byte Element.vector.code).bind ?_
    exact (reads_single hl he).bind_nil (reads_pure _)
  cases type with
  | element kind =>
    cases context with
    | none => exact reads_single hl h
    | some context => exact reads_single hl h
  | vector kind =>
    cases h with
    | vector he =>
      cases context with
      | none => exact hvector he
      | some context => exact hvector he

/-! ## Fixed arguments -/

/-- The fixed arguments are passed over, unless a part of them has an unknown width. -/
theorem skips_fixed (hl : lookup.Answers kept answers) {fixed : List FixedValue}
    (h : ∀ argument ∈ fixed, ∃ type, assembly.IsParameter answers argument.parameter type ∧
      argument.value.HasType answers type) (context : Option Cursor) {signature : Cursor}
    (hs : signature.Sees (fixed.flatMap fun argument => argument.parameter.encode)) :
    Skips kept (∀ argument ∈ fixed, argument.value.isReadable = true)
      (assembly.skipFixed lookup context fixed.length signature)
      (fixed.flatMap fun argument => argument.value.encode) := by
  induction fixed generalizing signature with
  | nil => exact (reads_pure true).readsOr.congr (by simp)
  | cons argument fixed ih =>
    obtain ⟨type, hp, hv⟩ := h argument (by simp)
    rw [List.flatMap_cons] at hs ⊢
    have htype := (reads_parameterType hl hp context).aside hs
    have hrest := ih (fun other ho => h other (by simp [ho])) hs.forward
    refine htype.bind_or ?_
    exact ((AttributeValue.skips_argument hl hv).bind hrest).congr (by simp)

/-- The header of the signature of a constructor and the number of its parameters. -/
theorem reads_constructorParameters {header : Header} {count : Nat} (hk : header.kind = .method)
    (hg : header.isGeneric = false) (hc : Compressed.IsNumber count) (constructor : MemberRefRow) :
    Cursor.Reads (constructorParameters constructor)
      (header.byte :: (Compressed.encode count ++ [Primitive.void.code])) count := by
  have hreturn : Cursor.Reads
      (do
        let returnType ← Cursor.byte
        if returnType = Primitive.void.code then
          pure count
        else
          Attempt.malformed (.constructorReturn constructor.token))
      [Primitive.void.code] count :=
    (Cursor.reads_byte Primitive.void.code).bind_nil (Cursor.reads_pure count)
  refine (reads_header header).bind ?_
  rw [if_pos ⟨hk, by rw [hg]; rfl⟩]
  exact (Compressed.reads_number hc).bind hreturn

theorem encodeMethod_constructorSignature {header : Header} (hg : header.isGeneric = false)
    (fixed : List FixedValue) :
    SignatureType.encodeMethod (constructorSignature header fixed) =
      (header.byte :: (Compressed.encode fixed.length ++ [Primitive.void.code]))
        ++ fixed.flatMap (fun argument => argument.parameter.encode) := by
  simp [constructorSignature, SignatureType.encodeMethod, MethodSignature.encodeHeader, hg,
    encodeParameters, SignatureType.encode, List.flatMap_def, Function.comp_def,
    ← List.flatten_append]

variable {row : CustomAttributeRow} {constructor : MemberRefRow} {header : Header}
  {fixed : List FixedValue} {named : List NamedValue}

/-- What stands before the named arguments is passed over, and their number is read. -/
theorem reads_namedCount (hl : lookup.Answers kept answers)
    (h : assembly.IsEncoded answers row constructor header fixed named)
    (context : Option Cursor) :
    ReadsOr kept (∀ argument ∈ fixed, argument.value.isReadable = true)
      (assembly.namedCount lookup row constructor context)
      (LittleEndian.encode 2 attributeProlog
        ++ (fixed.flatMap (fun argument => argument.value.encode)
        ++ LittleEndian.encode 2 named.length))
      (some named.length) (.ok none) := by
  have hnumber : ∀ {n : Nat}, n < 0x10000 →
      Reads kept (read (Cursor.number 2)) (LittleEndian.encode 2 n) n :=
    fun hn => reads_read (Cursor.reads_number hn)
  have hstart := Cursor.sees_start
    (SignatureType.encodeMethod (constructorSignature header fixed))
  have hparameters : Reads kept _ _ fixed.length :=
    reads_read (reads_constructorParameters h.isMethod h.notGeneric h.parameters constructor)
  rw [encodeMethod_constructorSignature h.notGeneric] at hstart
  refine (hnumber (by decide)).bind_or ?_
  rw [if_neg fun hne => hne rfl]
  refine (reads_ofExcept h.signature).bind_or ?_
  rw [encodeMethod_constructorSignature h.notGeneric]
  refine (hparameters.aside hstart).bind_or ?_
  exact (skips_fixed hl h.fixedTyped context hstart.forward).bind_reads
    ((hnumber h.namedCount).bind_nil (reads_pure _))

/-! ## Named arguments -/

/-- A look-up gives the same answers when something is kept beside what it remembers. -/
theorem answers_beside (hl : lookup.Answers kept answers) (found : τ) :
    (lookupBeside lookup).Answers (fun place => kept place.1 ∧ place.2 = found) answers := by
  rintro name ⟨state, _⟩ ⟨hk, rfl⟩
  obtain ⟨hanswer, hkept⟩ := hl name state hk
  exact ⟨hanswer, hkept, rfl⟩

/-- The named arguments are collected, up to one of which the value has a part of unknown
    width. -/
theorem visitNamed_collects (hl : lookup.Answers kept answers)
    (h : ∀ argument ∈ named, argument.WellFormed answers) {cursor : Cursor} {state : σ}
    {found : Array NamedArgument} (hc : cursor.Sees (named.flatMap NamedValue.encode))
    (hk : kept state) :
    ∃ place, visitNamed (lookupBeside lookup) collect named.length (cursor, (state, found)) =
        (.ok (), place) ∧
      place.2.2.toList = found.toList ++
        (named.takeWhile fun argument => argument.value.isReadable).map NamedValue.argument := by
  induction named generalizing cursor state found with
  | nil => exact ⟨_, rfl, by simp⟩
  | cons argument named ih =>
    rw [List.flatMap_cons] at hc
    have hone := NamedValue.reads_namedArgument (answers_beside hl found) (h argument (by simp))
    rw [List.takeWhile_cons]
    by_cases hr : argument.value.isReadable = true
    · obtain ⟨⟨state', _⟩, ⟨hk', rfl⟩, hread⟩ := hone.reads hr cursor (state, found) _ hc ⟨hk, rfl⟩
      obtain ⟨place, hrest, hfound⟩ := ih (fun other ho => h other (by simp [ho])) hc.forward hk'
      refine ⟨place, ?_, ?_⟩
      · rw [List.length_cons, visitNamed, bind_apply_ok hread]
        exact hrest
      · rw [if_pos hr, hfound]
        simp
    · obtain ⟨place, ⟨-, hfound⟩, hread⟩ := hone.ends hr cursor (state, found) _ hc ⟨hk, rfl⟩
      refine ⟨place, ?_, ?_⟩
      · rw [List.length_cons, visitNamed, bind_apply_ok hread]
        rfl
      · rw [if_neg hr, hfound]
        simp

/-- The walk through the value of an attribute. -/
theorem eachNamedArgument_collects {state : σ} (hl : lookup.Answers kept answers) (hk : kept state)
    (h : assembly.IsEncoded answers row constructor header fixed named) :
    ∃ place, assembly.eachNamedArgument (lookupBeside lookup) row collect (state, #[]) =
        (.ok (), place) ∧
      place.2.toList =
        if fixed.all fun argument => argument.value.isReadable then
          (named.takeWhile fun argument => argument.value.isReadable).map NamedValue.argument
        else [] := by
  obtain ⟨context, hcontext⟩ := h.context
  have hc := Cursor.sees_start (encodeAttribute fixed named)
  have hcount := reads_namedCount (answers_beside hl (#[] : Array NamedArgument)) h context
  have hassoc : encodeAttribute fixed named =
      (LittleEndian.encode 2 attributeProlog
        ++ (fixed.flatMap (fun argument => argument.value.encode)
        ++ LittleEndian.encode 2 named.length)) ++ named.flatMap NamedValue.encode := by
    simp only [encodeAttribute, List.append_assoc]
  rw [eachNamedArgument, if_pos h.isMember, h.isConstructor, bind_liftM_ok, hcontext,
    bind_liftM_ok, h.value, bind_liftM_ok]
  rw [hassoc] at hc ⊢
  by_cases hf : ∀ argument ∈ fixed, argument.value.isReadable = true
  · obtain ⟨⟨state', _⟩, ⟨hk', rfl⟩, hread⟩ := hcount.reads hf _ (state, #[]) _ hc ⟨hk, rfl⟩
    obtain ⟨place, hrest, hfound⟩ :=
      visitNamed_collects hl h.namedTyped hc.forward hk'
    refine ⟨place.2, ?_, ?_⟩
    · rw [onBytes, bind_apply_ok hread]
      dsimp only
      rw [hrest]
    · rw [if_pos (List.all_eq_true.2 hf), hfound]
      simp
  · obtain ⟨place, ⟨-, hfound⟩, hread⟩ := hcount.ends hf _ (state, #[]) _ hc ⟨hk, rfl⟩
    refine ⟨place.2, ?_, ?_⟩
    · rw [onBytes, bind_apply_ok hread]
      rfl
    · rw [if_neg fun hall => hf (List.all_eq_true.1 hall), hfound]

/-- Only the enum in the signature of the constructor is known. -/
def shades : EnumLookup Unit :=
  .ofTable [{ assembly := "Lib", name := "Shade", type := .byte }]

end ApiCensus.Assembly
