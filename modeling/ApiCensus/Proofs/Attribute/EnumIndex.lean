/-
  The enums in the index of an assembly.

  * `LastSuch`: what holds of the last item of which something of a kind holds.
  * `Assembly.Underlies`: an integral type is that of the first value field of a type.
  * `Assembly.Reflects`: the name of a type at the outermost level, or directly inside such a type.
  * `Assembly.DefinesEnum`: a type is an enum of a name. `Assembly.indexType_eq_ok` says that this
    is what a step of the index looks for.
  * `Assembly.getElem?_enumIndex`: a name is found in the index with the type that underlies the
    last enum of the name, and no other name is found.
-/
import ApiCensus.Attribute.EnumIndex
import ApiCensus.Proofs.Assembly.TypeRows
import ApiCensus.Proofs.Attribute.Folders
import ApiCensus.Proofs.Signature.Leading

namespace ApiCensus

open Attempt

/-! ## The last item -/

section LastSuch

variable {α β : Type} {holds : α → β → Prop} {first : α} {items : List α} {b : β}

/-- Something holds of an item and of nothing behind it. -/
def LastSuch (holds : α → β → Prop) (items : List α) (b : β) : Prop :=
  ∃ before item after, items = before ++ item :: after ∧ holds item b ∧
    ∀ later ∈ after, ∀ other, ¬ holds later other

theorem not_lastSuch_nil : ¬ LastSuch holds [] b := by
  rintro ⟨before, item, after, h, -⟩
  exact List.append_ne_nil_of_right_ne_nil before (List.cons_ne_nil item after) h.symm

/-- The first item is the last one if there is none behind it. -/
theorem lastSuch_cons : LastSuch holds (first :: items) b ↔
    LastSuch holds items b ∨ (∀ later ∈ items, ∀ other, ¬ holds later other) ∧ holds first b := by
  constructor
  · rintro ⟨before, item, after, h, hitem, hlater⟩
    cases before with
    | nil =>
      obtain ⟨rfl, rfl⟩ := List.cons.inj h
      exact .inr ⟨hlater, hitem⟩
    | cons _ before =>
      obtain ⟨-, rfl⟩ := List.cons.inj h
      exact .inl ⟨before, item, after, rfl, hitem, hlater⟩
  · rintro (⟨before, item, after, rfl, hitem, hlater⟩ | ⟨hlater, hfirst⟩)
    · exact ⟨first :: before, item, after, rfl, hitem, hlater⟩
    · exact ⟨[], first, items, rfl, hfirst, hlater⟩

/-- If something holds of an item, there is a last one. -/
theorem exists_lastSuch {item : α} (hmem : item ∈ items) (hitem : holds item b) :
    ∃ b, LastSuch holds items b := by
  induction items generalizing item b with
  | nil => cases hmem
  | cons first items ih =>
    by_cases hlater : ∃ later ∈ items, ∃ other, holds later other
    · obtain ⟨later, hmem, other, hother⟩ := hlater
      obtain ⟨b, hb⟩ := ih hmem hother
      exact ⟨b, lastSuch_cons.2 (.inl hb)⟩
    · have hnone : ∀ later ∈ items, ∀ other, ¬ holds later other :=
        fun later hmem other hother => hlater ⟨later, hmem, other, hother⟩
      rcases List.mem_cons.1 hmem with rfl | hmem
      · exact ⟨b, lastSuch_cons.2 (.inr ⟨hnone, hitem⟩)⟩
      · exact absurd hitem (hnone item hmem b)

end LastSuch

/-! ## The type of a field -/

/-- A type has the byte that it is found by. -/
theorem Primitive.ofCode?_eq_some_iff {code : UInt8} {type : Primitive} :
    ofCode? code = some type ↔ code = type.code := by
  refine ⟨fun h => ?_, fun h => h ▸ ofCode?_code type⟩
  have helement : Signature.Element.ofCode? code = some (.primitive type) := by
    rw [Signature.Element.ofCode?, h]
  exact (Signature.Element.code_eq_of_ofCode? helement).symm

namespace Assembly

variable {assembly : Assembly}

/-- The integral types, each behind the byte that stands for it in a signature. -/
def integralTypes : List (UInt8 × Primitive) :=
  [(0x04, .sByte), (0x05, .byte), (0x06, .int16), (0x07, .uInt16), (0x08, .int32), (0x09, .uInt32),
   (0x0A, .int64), (0x0B, .uInt64)]

theorem filter_ofCode?_eq_some_iff {code : UInt8} {type : Primitive} :
    (Primitive.ofCode? code).filter Primitive.isIntegral = some type ↔
      (code, type) ∈ integralTypes := by
  rw [Option.filter_eq_some_iff, Primitive.ofCode?_eq_some_iff]
  cases type <;> simp [integralTypes, Primitive.code, Primitive.isIntegral]

/-- A signature is that of a field of an integral type. -/
def IsFieldOf (signature : ByteArray) (type : Primitive) : Prop :=
  ∃ lead code, signature[0]? = some lead ∧ lead.toNat % 0x10 = 6 ∧
    signature[1]? = some code ∧ (code, type) ∈ integralTypes

theorem fieldPrimitive_eq_ok {signature : ByteArray} {found : Option Primitive}
    (h : fieldPrimitive signature = .ok found) (type : Primitive) :
    found.filter Primitive.isIntegral = some type ↔ IsFieldOf signature type := by
  have h : (do
      let header ← Signature.header
      if header.kind = .field then
        pure (Primitive.ofCode? (← Cursor.byte))
      else
        pure none : Attempt Cursor (Option Primitive)) { data := signature } = (.ok found, _) :=
    Prod.ext h rfl
  obtain ⟨header, _, hheader, h⟩ := bind_eq_ok h
  obtain ⟨lead, _, hbyte, hheader⟩ := bind_eq_ok hheader
  obtain ⟨⟨⟩⟩ := hheader
  obtain ⟨hlead, rfl⟩ := Cursor.byte_eq_ok hbyte
  have hlead : signature[0]? = some lead := hlead
  split at h
  · next hkind =>
    obtain ⟨code, _, hcode, h⟩ := bind_eq_ok h
    obtain ⟨hcode, -⟩ := Cursor.byte_eq_ok hcode
    have hcode : signature[1]? = some code := hcode
    obtain rfl : Primitive.ofCode? code = found := Except.ok.inj (congrArg Prod.fst h)
    rw [filter_ofCode?_eq_some_iff]
    refine ⟨fun htype => ⟨lead, code, hlead, Signature.Header.kind_eq_field_iff.1 hkind, hcode,
      htype⟩, ?_⟩
    rintro ⟨_, code', -, -, hcode', htype⟩
    obtain rfl := Option.some.inj (hcode.symm.trans hcode')
    exact htype
  · next hkind =>
    obtain rfl : none = found := Except.ok.inj (congrArg Prod.fst h)
    refine ⟨nofun, ?_⟩
    rintro ⟨lead', _, hlead', hfield, -⟩
    obtain rfl := Option.some.inj (hlead.symm.trans hlead')
    exact absurd (Signature.Header.kind_eq_field_iff.2 hfield) hkind

/-- A field holds the value of an enum. -/
def isValueField (assembly : Assembly) (field : FieldRow) : Bool :=
  (assembly.text field.name).toOption == some "value__"

/-- An integral type is that of the first field of a type that holds the value of an enum. -/
def Underlies (assembly : Assembly) (type : TypeDefRow) (underlying : Primitive) : Prop :=
  ∃ fields field signature, assembly.fieldsOf type = .ok fields ∧
    fields.find? assembly.isValueField = some field ∧
    assembly.blob field.signature = .ok signature ∧ IsFieldOf signature underlying

theorem valueType_eq_ok {fields : List FieldRow} {found : Option Primitive}
    (h : assembly.valueType fields = .ok found) (type : Primitive) :
    found = some type ↔ ∃ field signature,
      fields.find? assembly.isValueField = some field ∧
        assembly.blob field.signature = .ok signature ∧ IsFieldOf signature type := by
  induction fields with
  | nil =>
    obtain rfl := Except.ok.inj h
    simp
  | cons field fields ih =>
    obtain ⟨name, hname, h⟩ := except_bind_eq_ok h
    have hvalue : assembly.isValueField field = (name == valueField) := by
      rw [isValueField, hname]
      rfl
    rw [List.find?_cons, hvalue]
    split at h
    · next heq =>
      obtain ⟨signature, hblob, h⟩ := except_bind_eq_ok h
      obtain ⟨primitive, hprimitive, h⟩ := except_bind_eq_ok h
      obtain rfl := Except.ok.inj h
      rw [fieldPrimitive_eq_ok hprimitive, beq_iff_eq.2 heq]
      simp [hblob]
    · next hne =>
      rw [beq_eq_false_iff_ne.2 hne]
      exact ih h

theorem underlyingType_eq_ok {type : TypeDefRow} {found : Option Primitive}
    (h : assembly.underlyingType type = .ok found) (underlying : Primitive) :
    found = some underlying ↔ assembly.Underlies type underlying := by
  obtain ⟨fields, hfields, h⟩ := except_bind_eq_ok h
  rw [valueType_eq_ok h, Underlies, hfields]
  simp

/-! ## The name of a type -/

/-- The type around a type, as the rows say: that of the last row about it. -/
def outer? (nested : List NestedClassRow) (type : Nat) : Option Nat :=
  (nested.filter fun row => row.nested = type).getLast?.map NestedClassRow.enclosing

/-- The full name of a type with a namespace and a name of its own. -/
inductive FullName : String → String → String → Prop
  | global (name : String) : FullName "" name name
  | inNamespace {nameSpace : String} (h : nameSpace ≠ "") (name : String) :
      FullName nameSpace name (nameSpace ++ "." ++ name)

theorem fullName_iff {nameSpace name full : String} :
    FullName nameSpace name full ↔ full = qualify nameSpace name := by
  rw [qualify]
  constructor
  · intro h
    cases h with
    | global => rfl
    | inNamespace hne => rw [if_neg (by simpa using hne)]
  · rintro rfl
    by_cases hne : nameSpace = ""
    · subst hne
      exact .global name
    · rw [if_neg (by simpa using hne)]
      exact .inNamespace hne name

/-- The name that reflection gives to a type. -/
inductive Reflects (assembly : Assembly) (nested : List NestedClassRow) (type : TypeDefRow) :
    String → Prop
  /-- A type at the outermost level has its name behind its namespace. -/
  | outermost {nameSpace name full : String} (hout : outer? nested type.rid = none)
      (hspace : assembly.text type.nameSpace = .ok nameSpace)
      (hname : assembly.text type.name = .ok name) (hfull : FullName nameSpace name full) :
      Reflects assembly nested type full
  /-- A type directly inside such a type has its name behind that of the other one. -/
  | inside {enclosing : Nat} {outer : TypeDefRow} {nameSpace outerName outerFull name : String}
      (hinside : outer? nested type.rid = some enclosing)
      (houter : assembly.row TypeDefRow enclosing = .ok outer) (hout : outer? nested enclosing = none)
      (hspace : assembly.text outer.nameSpace = .ok nameSpace)
      (houterName : assembly.text outer.name = .ok outerName)
      (houterFull : FullName nameSpace outerName outerFull)
      (hname : assembly.text type.name = .ok name) :
      Reflects assembly nested type (outerFull ++ "+" ++ name)

theorem definedName_eq_ok {type : TypeDefRow} {found : String}
    (h : assembly.definedName type = .ok found) : ∃ nameSpace name,
      assembly.text type.nameSpace = .ok nameSpace ∧ assembly.text type.name = .ok name ∧
        FullName nameSpace name found := by
  obtain ⟨nameSpace, hspace, h⟩ := except_bind_eq_ok h
  obtain ⟨name, hname, h⟩ := except_bind_eq_ok h
  exact ⟨nameSpace, name, hspace, hname, fullName_iff.2 (Except.ok.inj h).symm⟩

variable {nested : List NestedClassRow} {type : TypeDefRow}

/-- A type has one name. -/
theorem Reflects.unique {name name' : String} (h : assembly.Reflects nested type name)
    (h' : assembly.Reflects nested type name') : name = name' := by
  have same : ∀ {index : Nat} {text text' : String}, assembly.text index = .ok text →
      assembly.text index = .ok text' → text = text' :=
    fun htext htext' => Except.ok.inj (htext.symm.trans htext')
  cases h with
  | outermost hout hspace hname hfull =>
    cases h' with
    | outermost _ hspace' hname' hfull' =>
      rw [fullName_iff.1 hfull, fullName_iff.1 hfull', same hspace hspace', same hname hname']
    | inside hinside => simp [hout] at hinside
  | inside hinside houter _ hspace houterName hfull hname =>
    cases h' with
    | outermost hout => simp [hinside] at hout
    | inside hinside' houter' _ hspace' houterName' hfull' hname' =>
      obtain rfl := Option.some.inj (hinside.symm.trans hinside')
      obtain rfl := Except.ok.inj (houter.symm.trans houter')
      rw [fullName_iff.1 hfull, fullName_iff.1 hfull', same hspace hspace',
        same houterName houterName', same hname hname']

theorem reflectionName_eq_ok (hnested : ∀ type, assembly.declaringType? type = outer? nested type)
    {found : Option String} (h : assembly.reflectionName type = .ok found) (name : String) :
    found = some name ↔ assembly.Reflects nested type name := by
  have hfound : ∀ {own}, assembly.Reflects nested type own →
      (some own = some name ↔ assembly.Reflects nested type name) :=
    fun hown => ⟨fun heq => Option.some.inj heq ▸ hown, fun hname => congrArg some (hown.unique hname)⟩
  obtain ⟨own, hown, h⟩ := except_bind_eq_ok h
  rw [hnested] at h
  split at h
  · next enclosing hinside =>
    obtain ⟨outer, houter, h⟩ := except_bind_eq_ok h
    have hrid : outer.rid = enclosing := RowKind.rid_of_get .typeDef houter
    rw [hnested, hrid] at h
    split at h
    · next hdeep =>
      obtain rfl := Except.ok.inj h
      refine ⟨nofun, fun hreflects => ?_⟩
      cases hreflects with
      | outermost hout => simp [hinside] at hout
      | inside hinside' _ hout =>
        obtain rfl := Option.some.inj (hinside.symm.trans hinside')
        simp [hout] at hdeep
    · next hout =>
      obtain ⟨defined, hdefined, h⟩ := except_bind_eq_ok h
      obtain ⟨nameSpace, outerName, hspace, houterName, hfull⟩ := definedName_eq_ok hdefined
      obtain rfl := Except.ok.inj h
      exact hfound (.inside hinside houter (by simpa using hout) hspace houterName hfull hown)
  · next hout =>
    obtain ⟨defined, hdefined, h⟩ := except_bind_eq_ok h
    obtain ⟨nameSpace, name, hspace, hname, hfull⟩ := definedName_eq_ok hdefined
    obtain rfl := Except.ok.inj h
    exact hfound (.outermost hout hspace hname hfull)

/-! ## The index -/

/-- A type is an enum of a name. -/
def DefinesEnum (assembly : Assembly) (nested : List NestedClassRow) (name : String)
    (type : TypeDefRow) (underlying : Primitive) : Prop :=
  assembly.Underlies type underlying ∧ assembly.Reflects nested type name

/-- What a step of the index does about a type: it puts the type in if it is an enum. -/
theorem indexType_eq_ok (hnested : ∀ type, assembly.declaringType? type = outer? nested type)
    {index index' : EnumIndex} (h : assembly.indexType index (.ok type) = .ok index') :
    (∃ name underlying, index' = index.insert name underlying ∧ ∀ other type',
      assembly.DefinesEnum nested other type type' ↔ name = other ∧ underlying = type') ∨
    index' = index ∧ ∀ other type', ¬ assembly.DefinesEnum nested other type type' := by
  obtain ⟨_, htype, h⟩ := except_bind_eq_ok h
  obtain rfl := Except.ok.inj htype
  obtain ⟨found, hfound, h⟩ := except_bind_eq_ok h
  have hunderlies := underlyingType_eq_ok hfound
  split at h
  · obtain rfl := Except.ok.inj h
    exact .inr ⟨rfl, fun other type' hdefines => nomatch (hunderlies type').2 hdefines.1⟩
  · next underlying =>
    obtain ⟨name, hname, h⟩ := except_bind_eq_ok h
    have hreflects := reflectionName_eq_ok hnested hname
    split at h
    · obtain rfl := Except.ok.inj h
      exact .inr ⟨rfl, fun other type' hdefines => nomatch (hreflects other).2 hdefines.2⟩
    · next name =>
      obtain rfl := Except.ok.inj h
      refine .inl ⟨name, underlying, rfl, fun other type' => ?_⟩
      rw [DefinesEnum, ← hunderlies, ← hreflects, Option.some.injEq, Option.some.injEq, and_comm]

section

variable (hnested : ∀ type, assembly.declaringType? type = outer? nested type)
include hnested

/-- What is found in an index behind a type: the enum that the type defines, or what was there
    before. -/
theorem getElem?_of_indexType {start index : EnumIndex}
    (h : assembly.indexType start (.ok type) = .ok index) (name : String) (underlying : Primitive) :
    index[name]? = some underlying ↔ assembly.DefinesEnum nested name type underlying ∨
      (∀ other, ¬ assembly.DefinesEnum nested name type other) ∧
        start[name]? = some underlying := by
  rcases indexType_eq_ok hnested h with ⟨own, type', rfl, hdefines⟩ | ⟨rfl, hdefines⟩
  · rw [Std.HashMap.getElem?_insert]
    by_cases hname : own = name
    · simp [hname, hdefines]
    · simp [hname, hdefines]
  · simp [hdefines]

/-- What is found in an index behind several types: the last enum of the name among them, or what
    was there before. -/
theorem getElem?_of_indexTypes {types : List TypeDefRow} {start index : EnumIndex}
    (h : (types.map .ok).foldlM assembly.indexType start = .ok index) (name : String)
    (underlying : Primitive) : index[name]? = some underlying ↔
      LastSuch (assembly.DefinesEnum nested name) types underlying ∨
        (∀ type ∈ types, ∀ other, ¬ assembly.DefinesEnum nested name type other) ∧
          start[name]? = some underlying := by
  induction types generalizing start with
  | nil =>
    obtain rfl := Except.ok.inj h
    simp [not_lastSuch_nil]
  | cons type types ih =>
    rw [List.map_cons, List.foldlM_cons] at h
    obtain ⟨next, hnext, h⟩ := except_bind_eq_ok h
    rw [ih h, lastSuch_cons, getElem?_of_indexType hnested hnext, List.forall_mem_cons]
    tauto

end

/-- An index is only made of types that can be read. -/
theorem rows_of_foldlM_indexType {rows : List (Except Fault TypeDefRow)} {start index : EnumIndex}
    (h : rows.foldlM assembly.indexType start = .ok index) :
    ∃ types : List TypeDefRow, rows = types.map .ok := by
  induction rows generalizing start with
  | nil => exact ⟨[], rfl⟩
  | cons row rows ih =>
    rw [List.foldlM_cons] at h
    obtain ⟨next, hnext, hrest⟩ := except_bind_eq_ok h
    obtain ⟨type, rfl, -⟩ := except_bind_eq_ok hnext
    obtain ⟨types, rfl⟩ := ih hrest
    exact ⟨type :: types, rfl⟩

/-- **If an opened assembly has an index of enums, all its types can be read. A name is found in the
    index just if a type is an enum of the name, and then with the type that underlies the last
    such enum in table order: that of its first value field. An enum has its own name behind its
    namespace, or behind the name of the type around it if no other one is around that.** -/
theorem getElem?_enumIndex {image : Image} (h : ofImage image = .ok assembly) {index : EnumIndex}
    (hindex : assembly.enumIndex = .ok index) :
    ∃ types nested, assembly.Holds .typeDef types ∧ assembly.Holds .nestedClass nested ∧
      ∀ name,
        (∀ underlying, index[name]? = some underlying ↔
          LastSuch (assembly.DefinesEnum nested name) types underlying) ∧
        (index[name]? = none ↔
          ∀ type ∈ types, ∀ underlying, ¬ assembly.DefinesEnum nested name type underlying) := by
  obtain ⟨types, hrows⟩ := rows_of_foldlM_indexType hindex
  have htypes : assembly.allRows TypeDefRow = .ok types := by
    rw [allRows, hrows]
    exact mapM_eq_ok_self fun _ _ => rfl
  obtain ⟨nested, hnested, hdeclaring⟩ := declaringType?_of_indexed (indexed_of_ofImage h)
  refine ⟨types, nested, holds_of_allRows h htypes, holds_of_allRows h hnested, fun name => ?_⟩
  have hfound : ∀ underlying, index[name]? = some underlying ↔
      LastSuch (assembly.DefinesEnum nested name) types underlying := by
    intro underlying
    rw [enumIndex, hrows] at hindex
    rw [getElem?_of_indexTypes hdeclaring hindex, Std.HashMap.getElem?_empty]
    simp
  refine ⟨hfound, fun hnone type htype underlying hdefines => ?_, fun hnone => ?_⟩
  · obtain ⟨other, hother⟩ := exists_lastSuch htype hdefines
    rw [(hfound other).2 hother] at hnone
    cases hnone
  · rw [Option.eq_none_iff_forall_ne_some]
    intro underlying hsome
    obtain ⟨_, type, _, rfl, hdefines, -⟩ := (hfound underlying).1 hsome
    exact hnone type (by simp) underlying hdefines

theorem getElem?_enumIndex_colors : ∃ assembly index,
    ofImage ModuleDraft.colorsDraft.loaded = .ok assembly ∧ assembly.enumIndex = .ok index ∧
      ∃ types nested, assembly.Holds .typeDef types ∧ assembly.Holds .nestedClass nested ∧
        LastSuch (assembly.DefinesEnum nested "Color") types .uInt16 ∧
        ∀ type ∈ types, ∀ underlying, ¬ assembly.DefinesEnum nested "Shade" type underlying := by
  obtain ⟨assembly, hopen, hread⟩ :=
    ModuleDraft.colorsDraft.ofImage_loaded (by decide +kernel) rfl
  have hindex := ModuleDraft.enumIndex_colors hread (indexed_of_ofImage hopen)
  obtain ⟨types, nested, htypes, hnested, hnames⟩ := getElem?_enumIndex hopen hindex
  refine ⟨assembly, _, hopen, hindex, types, nested, htypes, hnested, ?_, ?_⟩
  · exact ((hnames "Color").1 .uInt16).1 Std.HashMap.getElem?_insert_self
  · refine (hnames "Shade").2.1 ?_
    rw [Std.HashMap.getElem?_insert, if_neg (by decide)]
    exact Std.HashMap.getElem?_empty

end Assembly

end ApiCensus
