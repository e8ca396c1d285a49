/-
  What a crawl records.

  * `Assembly.Referenced`: the keys of the rows for referenced types and members.
  * `Assembly.SetAt`: the keys of the fields and properties that attributes set.
  * `Assembly.Crawls`: what the steps of a crawl do not change; `crawlAll_keeps` says that a
    crawl does nothing else, however its visits lie inside each other.
  * `Assembly.crawl_keys`: a crawl that ends well has recorded all of the first keys, and of
    other keys only those of the second kind and those of primitive types.
-/
import ApiCensus.Api.Crawl
import ApiCensus.Proofs.Assembly.Owners
import ApiCensus.Proofs.Attribute.Visiting
import ApiCensus.Proofs.Metadata.Columns
import ApiCensus.Proofs.Signature.Building

namespace ApiCensus

open Attempt Signature

variable {σ α β : Type}

theorem KeySet.not_mem_empty (key : ApiKey) : key ∉ ({} : KeySet) := by
  intro h
  have hc : ({} : KeySet).ids.contains key.id = true := h
  simp at hc

namespace Assembly

variable (assembly : Assembly) (lookup : EnumLookup σ)

theorem row_of_mem_attributesOf {parent : Token} {rows : List CustomAttributeRow}
    (h : assembly.attributesOf parent = .ok rows) {row : CustomAttributeRow} (hr : row ∈ rows) :
    ∃ rid, assembly.row CustomAttributeRow rid = .ok row := by
  obtain ⟨rid, -, hrow⟩ := mem_of_mapM_eq_ok h hr
  exact ⟨rid, hrow⟩

/-! ## Keys -/

/-- The key of a referenced type, or of a referenced member that is not a member of a type of
    this assembly. -/
inductive Referenced : ApiKey → Prop
  | type {rid : Nat} {type : TypeRefRow} {id : String}
    (row : assembly.row TypeRefRow rid = .ok type)
    (id_eq : assembly.typeRefId type = .ok (some id)) : Referenced ⟨id⟩
  | member {rid : Nat} {member : MemberRefRow} {id : String}
    (row : assembly.row MemberRefRow rid = .ok member)
    (foreign : member.parent.table ≠ .typeDef)
    (id_eq : assembly.memberRefId member = .ok (some id)) : Referenced ⟨id⟩

/-- What the keys of fields, or those of properties, begin with. -/
inductive Marks : ArgumentTarget → String → Prop
  | field : Marks .field "F:"
  | property : Marks .property "P:"

theorem marks_targetMark (target : ArgumentTarget) : Marks target (targetMark target) := by
  cases target with
  | field => exact .field
  | property => exact .property

/-- The key of a field or property that a named argument of an attribute sets, where the look-up
    remembers `state` when it is asked about the attribute. The type of the attribute is a
    referenced one. -/
inductive SetAt (state : σ) : ApiKey → Prop
  | argument {rid : Nat} {row : CustomAttributeRow} {constructor : MemberRefRow}
    {type : TypeRefRow} {parent name mark : String} {target : ArgumentTarget}
    (row_eq : assembly.row CustomAttributeRow rid = .ok row)
    (isMember : row.constructor.table = .memberRef)
    (constructor_eq : assembly.row MemberRefRow row.constructor.row = .ok constructor)
    (isReferenced : constructor.parent.table = .typeRef)
    (type_eq : assembly.row TypeRefRow constructor.parent.row = .ok type)
    (parent_eq : assembly.typeRefName type = .ok (some parent))
    (listed : ⟨target, some name⟩ ∈ (assembly.namedArguments lookup row state).1.1)
    (marks : Marks target mark) :
    SetAt state ⟨mark ++ parent ++ "." ++ name⟩

/-- The key of a primitive type. -/
def primitiveKey (type : Primitive) : ApiKey :=
  ⟨"T:System." ++ type.name⟩

/-- One more key does no harm. -/
def Admits (P : σ × KeySet → Prop) (key : ApiKey) : Prop :=
  ∀ state keys, P (state, keys) → P (state, keys.insert key)

/-- What a crawl does not change: it asks the look-up, and it records keys of three kinds. -/
structure Crawls (P : σ × KeySet → Prop) : Prop where
  asks : ∀ name state keys, P (state, keys) → P ((lookup name state).2, keys)
  references : ∀ key, assembly.Referenced key → Admits P key
  primitives : ∀ type, Admits P (primitiveKey type)
  arguments : ∀ state keys key, P (state, keys) → assembly.SetAt lookup state key → Admits P key

/-! ## Recording -/

section
variable {P : σ × KeySet → Prop}

theorem record_keeps {id : String} (h : Admits P ⟨id⟩) : Keeps P (record id : Crawling σ Unit) :=
  Keeps.ite (fun _ => Keeps.pure ()) fun _ place hp => h place.1 place.2 hp

theorem recordSome_keeps {id : Option String} (h : ∀ text, id = some text → Admits P ⟨text⟩) :
    Keeps P (recordSome id : Crawling σ Unit) := by
  cases id with
  | none => exact Keeps.pure ()
  | some text => exact record_keeps (h text rfl)

variable {assembly lookup}

theorem recordTypeRef_keeps (h : assembly.Crawls lookup P) (rid : Nat) :
    Keeps P (assembly.recordTypeRef rid : Crawling σ Unit) := by
  refine Keeps.bind_liftM fun type ht => Keeps.bind_liftM fun id hid => ?_
  refine recordSome_keeps fun text hs => h.references _ (.type ht ?_)
  rw [hid, hs]

theorem recordMemberRef_keeps (h : assembly.Crawls lookup P) {rid : Nat} {member : MemberRefRow}
    (hm : assembly.row MemberRefRow rid = .ok member) :
    Keeps P (assembly.recordMemberRef member : Crawling σ Unit) := by
  refine Keeps.ite (fun _ => Keeps.pure ()) fun hf => Keeps.bind_liftM fun id hid => ?_
  refine recordSome_keeps fun text hs => h.references _ (.member hm hf ?_)
  rw [hid, hs]

theorem recordArgument_keeps {type : Nat} {argument : NamedArgument}
    (h : ∀ row parent name, assembly.row TypeRefRow type = .ok row →
      assembly.typeRefName row = .ok (some parent) → argument.name = some name →
      Admits P ⟨targetMark argument.target ++ parent ++ "." ++ name⟩) :
    Keeps P (assembly.recordArgument type argument : Crawling σ Unit) := by
  refine Keeps.bind_liftM fun row hrow => Keeps.bind_liftM fun parent hparent => ?_
  split
  · exact record_keeps (h row _ _ hrow hparent ‹_›)
  · exact Keeps.pure ()

theorem crawlAttribute_keeps (h : assembly.Crawls lookup P) {rid : Nat} {row : CustomAttributeRow}
    (hrow : assembly.row CustomAttributeRow rid = .ok row) :
    Keeps P (assembly.crawlAttribute lookup row) := by
  refine Keeps.ite (fun hm => Keeps.bind_liftM fun constructor hc => ?_) fun _ => Keeps.pure ()
  refine Keeps.ite (fun ht => ?_) fun _ => Keeps.pure ()
  rintro ⟨state, keys⟩ hp
  refine assembly.eachNamedArgument_keeps row h.asks (fun argument place => ?_) ?_ hp
  · exact recordArgument_keeps (P := fun other => other.1 = place.1)
      (fun _ _ _ _ _ _ _ _ hs => hs) place rfl
  · rintro ⟨target, name⟩ ha
    refine recordArgument_keeps fun type parent text htype hparent htext => ?_
    obtain rfl : name = some text := htext
    exact h.arguments state keys _ hp
      (.argument hrow hm hc ht htype hparent ha (marks_targetMark target))

theorem crawlAttributes_keeps (h : assembly.Crawls lookup P) (parent : Token) :
    Keeps P (assembly.crawlAttributes lookup parent) := by
  refine Keeps.bind_liftM fun rows hrows => Keeps.forM fun row hr => ?_
  obtain ⟨rid, hrow⟩ := assembly.row_of_mem_attributesOf hrows hr
  exact crawlAttribute_keeps h hrow

/-! ## Signatures -/

theorem walker_keeps (h : assembly.Crawls lookup P) {recordToken : Option Token → Crawling σ Unit}
    (hr : ∀ token, Keeps P (recordToken token)) : (assembly.walker recordToken).Keeps P := by
  have hpass : ∀ element, Keeps P (do
      recordToken element
      pure element) := fun element => (hr element).bind fun _ => Keeps.pure element
  exact
    { primitive := fun type => (record_keeps (h.primitives type)).bind fun _ => Keeps.pure none
      definition := fun token _ => Keeps.pure (some token)
      reference := fun token _ =>
        (recordTypeRef_keeps h token.row).bind fun _ => Keeps.pure (some token)
      specification := fun token _ => Keeps.pure (some token)
      vector := hpass
      array := fun element _ => hpass element
      byReference := hpass
      pointer := hpass
      pinned := hpass
      instantiation := fun generic arguments =>
        (hr generic).bind fun _ => (Keeps.forM fun argument _ => hr argument).bind fun _ =>
          Keeps.pure generic
      typeParameter := fun _ => Keeps.pure none
      methodParameter := fun _ => Keeps.pure none
      modified := fun _ unmodified _ => hpass unmodified
      functionPointer := fun signature =>
        (Keeps.forM fun parameter _ => hr parameter).bind fun _ => Keeps.pure none }

theorem crawlTypeSpec_keeps (h : assembly.Crawls lookup P)
    {recordToken : Option Token → Crawling σ Unit} (hr : ∀ token, Keeps P (recordToken token))
    (rid : Nat) : Keeps P (assembly.crawlTypeSpec lookup recordToken rid) := by
  refine Keeps.bind_liftM fun type _ => (crawlAttributes_keeps h type.token).bind fun _ => ?_
  refine Keeps.bind_liftM fun blob _ => ?_
  refine (onBytes_keeps (type_keeps (walker_keeps h hr)) blob).bind fun leaf => ?_
  exact Keeps.ite (fun _ => Keeps.pure ()) fun _ => hr leaf

theorem recordEntity_keeps (h : assembly.Crawls lookup P) (limit levels : Nat)
    (entity : Option Token) : Keeps P (assembly.recordEntity lookup limit levels entity) := by
  induction levels generalizing entity with
  | zero => exact Keeps.throw _
  | succ levels ih =>
    unfold recordEntity
    split
    · exact Keeps.pure ()
    · split
      · exact recordTypeRef_keeps h _
      · exact Keeps.bind_liftM fun member hm => recordMemberRef_keeps h hm
      · exact crawlTypeSpec_keeps h ih _
      · exact Keeps.pure ()

theorem entityWalker_keeps (h : assembly.Crawls lookup P) (limit levels : Nat) :
    (assembly.walker (assembly.recordEntity lookup limit levels)).Keeps P :=
  walker_keeps h (recordEntity_keeps h limit levels)

/-! ## Types and their members -/

theorem deeper_keeps {limit : Nat} {visit : Nat → Crawling σ Unit}
    (hv : ∀ levels, Keeps P (visit levels)) (levels : Nat) :
    Keeps P (deeper limit visit levels) := by
  cases levels with
  | zero => exact Keeps.throw _
  | succ levels => exact hv levels

theorem crawlField_keeps (h : assembly.Crawls lookup P) (limit : Nat) (field : FieldRow)
    (levels : Nat) : Keeps P (assembly.crawlField lookup limit field levels) := by
  refine deeper_keeps (fun levels => ?_) levels
  refine (crawlAttributes_keeps h field.token).bind fun _ => Keeps.bind_liftM fun blob _ => ?_
  exact (onBytes_keeps (fieldType_keeps (entityWalker_keeps h limit levels)) blob).bind fun _ =>
    Keeps.pure ()

theorem crawlProperty_keeps (h : assembly.Crawls lookup P) (limit : Nat) (property : PropertyRow)
    (levels : Nat) : Keeps P (assembly.crawlProperty lookup limit property levels) := by
  refine deeper_keeps (fun levels => ?_) levels
  refine (crawlAttributes_keeps h property.token).bind fun _ => Keeps.bind_liftM fun blob _ => ?_
  refine (onBytes_keeps (method_keeps (entityWalker_keeps h limit levels)) blob).bind fun _ => ?_
  refine Keeps.bind_liftM fun accessors _ => Keeps.forM fun method _ => ?_
  exact crawlAttributes_keeps h (Token.ofRow .methodDef method)

theorem crawlEvent_keeps (h : assembly.Crawls lookup P) (limit : Nat) (event : EventRow)
    (levels : Nat) : Keeps P (assembly.crawlEvent lookup limit event levels) := by
  refine deeper_keeps (fun levels => ?_) levels
  refine (crawlAttributes_keeps h event.token).bind fun _ => ?_
  refine (recordEntity_keeps h limit levels _).bind fun _ => ?_
  refine Keeps.bind_liftM fun accessors _ => Keeps.forM fun method _ => ?_
  exact crawlAttributes_keeps h (Token.ofRow .methodDef method)

theorem crawlTypeBy_keeps (h : assembly.Crawls lookup P) (limit : Nat)
    {nested : Nat → Crawling σ Unit} (hn : ∀ rid, Keeps P (nested rid)) (levels : Nat)
    (type : TypeDefRow) : Keeps P (assembly.crawlTypeBy lookup limit nested levels type) := by
  refine Keeps.bind_liftM fun embedded _ => Keeps.ite (fun _ => Keeps.pure ()) fun _ => ?_
  refine (crawlAttributes_keeps h type.token).bind fun _ => Keeps.bind_liftM fun fields _ => ?_
  refine (Keeps.forM fun field _ => crawlField_keeps h limit field levels).bind fun _ => ?_
  refine Keeps.bind_liftM fun methods _ => ?_
  refine (Keeps.forM fun method _ => crawlAttributes_keeps h method.token).bind fun _ => ?_
  refine Keeps.bind_liftM fun properties _ => ?_
  refine (Keeps.forM fun property _ => crawlProperty_keeps h limit property levels).bind fun _ => ?_
  refine Keeps.bind_liftM fun events _ => ?_
  refine (Keeps.forM fun event _ => crawlEvent_keeps h limit event levels).bind fun _ => ?_
  exact Keeps.forM fun rid _ => hn rid

theorem crawlType_keeps (h : assembly.Crawls lookup P) (limit levels : Nat) (type : TypeDefRow) :
    Keeps P (assembly.crawlType lookup limit levels type) := by
  induction levels generalizing type with
  | zero => exact crawlTypeBy_keeps h limit (fun _ => Keeps.throw _) 0 type
  | succ levels ih =>
    refine crawlTypeBy_keeps h limit (fun rid => ?_) (levels + 1) type
    exact Keeps.bind_liftM fun inner _ => ih inner

/-! ## The whole assembly -/

theorem recordMemberRow_keeps (h : assembly.Crawls lookup P) {row : Except Fault MemberRefRow}
    (hr : row ∈ (assembly.table MemberRefRow).rows) :
    Keeps P (do assembly.recordMemberRef (← row) : Crawling σ Unit) := by
  refine Keeps.bind_liftM fun member hm => ?_
  obtain ⟨rid, hrow⟩ := Table.get_of_mem_rows (hm ▸ hr)
  exact recordMemberRef_keeps h hrow

theorem recordTypeRow_keeps (h : assembly.Crawls lookup P) (row : Except Fault TypeRefRow) :
    Keeps P (do assembly.recordTypeRef (← row).rid : Crawling σ Unit) :=
  Keeps.bind_liftM fun type _ => recordTypeRef_keeps h type.rid

theorem crawlTypeRows_keeps (h : assembly.Crawls lookup P) (limit : Nat) :
    Keeps P ((assembly.table TypeDefRow).rows.forM fun row => do
      assembly.crawlType lookup limit (limit + 1) (← row)) :=
  Keeps.forM fun _ _ => Keeps.bind_liftM fun type _ => crawlType_keeps h limit (limit + 1) type

theorem crawlAll_keeps (h : assembly.Crawls lookup P) (limit : Nat) :
    Keeps P (assembly.crawlAll lookup limit) :=
  (crawlAttributes_keeps h self).bind fun _ =>
    (Keeps.forM fun _ hr => recordMemberRow_keeps h hr).bind fun _ =>
      (Keeps.forM fun row _ => recordTypeRow_keeps h row).bind fun _ => crawlTypeRows_keeps h limit

end

/-! ## The keys of a crawl -/

theorem isEmpty_append {front : String} (h : front.isEmpty = false) (back : String) :
    (front ++ back).isEmpty = false := by
  rw [String.isEmpty_eq_utf8ByteSize_beq_zero, beq_eq_false_iff_ne] at h ⊢
  rw [String.utf8ByteSize_append]
  omega

variable {assembly lookup}

theorem typeRefId_not_isEmpty {type : TypeRefRow} {id : String}
    (h : assembly.typeRefId type = .ok (some id)) : id.isEmpty = false := by
  obtain ⟨name, -, h⟩ := except_bind_eq_ok h
  have hid : name.map ("T:" ++ ·) = some id := Except.ok.inj h
  obtain ⟨text, -, rfl⟩ := Option.map_eq_some_iff.1 hid
  exact isEmpty_append rfl text

theorem memberShape_mark {member : MemberRefRow} {blob : ByteArray} {header : Header}
    {mark parameters : String}
    (h : assembly.memberShape member blob header = .ok (mark, parameters)) :
    mark.isEmpty = false := by
  unfold memberShape at h
  split at h
  · obtain ⟨signature, -, h⟩ := except_bind_eq_ok h
    obtain ⟨rfl, -⟩ := Prod.mk.inj (Except.ok.inj h)
    rfl
  · obtain ⟨rfl, -⟩ := Prod.mk.inj (Except.ok.inj h)
    rfl
  · simp [throw, throwThe, MonadExceptOf.throw] at h

theorem memberRefId_not_isEmpty {member : MemberRefRow} {id : String}
    (h : assembly.memberRefId member = .ok (some id)) : id.isEmpty = false := by
  unfold memberRefId at h
  split at h
  · obtain ⟨parent, -, h⟩ := except_bind_eq_ok h
    cases parent with
    | none => exact absurd (Except.ok.inj h) (by simp)
    | some parent =>
      obtain ⟨blob, -, h⟩ := except_bind_eq_ok h
      obtain ⟨header, -, h⟩ := except_bind_eq_ok h
      obtain ⟨⟨mark, parameters⟩, hshape, h⟩ := except_bind_eq_ok h
      obtain ⟨arity, -, h⟩ := except_bind_eq_ok h
      obtain ⟨name, -, h⟩ := except_bind_eq_ok h
      obtain rfl := Option.some.inj (Except.ok.inj h)
      have hm := memberShape_mark hshape
      simp only [String.append_assoc]
      exact isEmpty_append hm _
  · exact absurd (Except.ok.inj h) (by simp)

theorem record_brings {id : String} (hid : id.isEmpty = false) {place place' : σ × KeySet}
    (h : record id place = (.ok (), place')) : ⟨id⟩ ∈ place'.2 := by
  have hrun : record id place = (.ok (), (place.1, place.2.insert ⟨id⟩)) := by
    rw [record, hid]
    rfl
  obtain ⟨-, rfl⟩ := Prod.mk.inj (hrun.symm.trans h)
  exact KeySet.mem_insert.2 (Or.inl rfl)

theorem crawls_mem (key : ApiKey) : assembly.Crawls lookup (fun place => key ∈ place.2) where
  asks _ _ _ hp := hp
  references _ _ _ _ hp := KeySet.mem_insert.2 (Or.inr hp)
  primitives _ _ _ hp := KeySet.mem_insert.2 (Or.inr hp)
  arguments _ _ _ _ _ _ _ hp := KeySet.mem_insert.2 (Or.inr hp)

/-- What a key that a crawl records can be. -/
def Accounted (assembly : Assembly) (lookup : EnumLookup σ) (start : σ) (key : ApiKey) : Prop :=
  assembly.Referenced key ∨ (∃ type, key = primitiveKey type) ∨
    ∃ asked, lookup.Reached start asked ∧ assembly.SetAt lookup asked key

/-- What a crawl has done so far. -/
def Recorded (assembly : Assembly) (lookup : EnumLookup σ) (start : σ) (place : σ × KeySet) :
    Prop :=
  lookup.Reached start place.1 ∧ ∀ key ∈ place.2, assembly.Accounted lookup start key

theorem Recorded.insert {start state : σ} {keys : KeySet} {key : ApiKey}
    (h : assembly.Recorded lookup start (state, keys))
    (hkey : assembly.Accounted lookup start key) :
    assembly.Recorded lookup start (state, keys.insert key) := by
  refine ⟨h.1, fun other ho => ?_⟩
  rcases KeySet.mem_insert.1 ho with rfl | ho
  · exact hkey
  · exact h.2 other ho

theorem crawls_recorded (start : σ) :
    assembly.Crawls lookup (assembly.Recorded lookup start) where
  asks name _ _ hp := ⟨.asked name hp.1, hp.2⟩
  references _ hkey _ _ hp := hp.insert (Or.inl hkey)
  primitives type _ _ hp := hp.insert (Or.inr (Or.inl ⟨type, rfl⟩))
  arguments asked _ _ ha hkey _ _ hp := hp.insert (Or.inr (Or.inr ⟨asked, ha.1, hkey⟩))

theorem recordTypeRef_brings {rid : Nat} {type : TypeRefRow} {id : String}
    (hrow : assembly.row TypeRefRow rid = .ok type)
    (hid : assembly.typeRefId type = .ok (some id)) {place place' : σ × KeySet}
    (h : assembly.recordTypeRef rid place = (.ok (), place')) : ⟨id⟩ ∈ place'.2 := by
  rw [recordTypeRef, hrow, bind_liftM_ok, hid, bind_liftM_ok] at h
  exact record_brings (typeRefId_not_isEmpty hid) h

theorem recordMemberRef_brings {member : MemberRefRow} {id : String}
    (hf : member.parent.table ≠ .typeDef) (hid : assembly.memberRefId member = .ok (some id))
    {place place' : σ × KeySet}
    (h : assembly.recordMemberRef member place = (.ok (), place')) : ⟨id⟩ ∈ place'.2 := by
  rw [recordMemberRef, if_neg hf, hid, bind_liftM_ok] at h
  exact record_brings (memberRefId_not_isEmpty hid) h

/-- A crawl that ends well has recorded every key of the rows for referenced types and
    members. -/
theorem crawlAll_brings {limit : Nat} {key : ApiKey} (hkey : assembly.Referenced key)
    {place place' : σ × KeySet} (h : assembly.crawlAll lookup limit place = (.ok (), place')) :
    key ∈ place'.2 := by
  have hmem : assembly.Crawls lookup (fun place => key ∈ place.2) := crawls_mem key
  obtain ⟨_, place₁, -, h⟩ := bind_eq_ok h
  obtain ⟨_, place₂, hmembers, h⟩ := bind_eq_ok h
  obtain ⟨_, place₃, htypes, h⟩ := bind_eq_ok h
  have hlast : key ∈ place₃.2 → key ∈ place'.2 := by
    have hk := crawlTypeRows_keeps hmem limit place₃
    rwa [h] at hk
  refine hlast ?_
  cases hkey with
  | @type rid type id hrow hid =>
    refine forM_brings (P := fun place => ⟨id⟩ ∈ place.2) (Table.mem_rows hrow)
      (fun row _ => recordTypeRow_keeps hmem row) (fun t t' ht => ?_) htypes
    obtain rfl : type.rid = rid := RowKind.rid_of_get .typeRef hrow
    exact recordTypeRef_brings hrow hid ht
  | @member rid member id hrow hf hid =>
    have hthen : ⟨id⟩ ∈ place₂.2 → ⟨id⟩ ∈ place₃.2 := by
      have hk : Keeps _ ((assembly.table TypeRefRow).rows.forM _) :=
        Keeps.forM fun row _ => recordTypeRow_keeps hmem row
      have hr := hk place₂
      rwa [htypes] at hr
    refine hthen ?_
    refine forM_brings (P := fun place => ⟨id⟩ ∈ place.2) (Table.mem_rows hrow)
      (fun _ hr => recordMemberRow_keeps hmem hr) (fun t t' ht => ?_) hmembers
    exact recordMemberRef_brings hf hid ht

theorem crawlAll_of_crawl {limit : Nat} {start state : σ} {keys : KeySet}
    (h : assembly.crawl lookup limit start = (.ok keys, state)) :
    assembly.crawlAll lookup limit (start, {}) = (.ok (), (state, keys)) := by
  unfold crawl at h
  split at h
  · rename_i hrun
    obtain ⟨hkeys, rfl⟩ := Prod.mk.inj h
    rw [hrun, Except.ok.inj hkeys]
  · exact absurd (congrArg Prod.fst h) (by simp)

/-- **A crawl that ends well has recorded every key of the rows for referenced types and members.
    Any other key that it has recorded is that of a primitive type, or that of a field or
    property that an attribute of a referenced type sets.** -/
theorem crawl_keys {limit : Nat} {start state : σ} {keys : KeySet}
    (h : assembly.crawl lookup limit start = (.ok keys, state)) :
    (∀ key, assembly.Referenced key → key ∈ keys) ∧
    ∀ key ∈ keys, assembly.Referenced key ∨ (∃ type, key = primitiveKey type) ∨
      ∃ asked, lookup.Reached start asked ∧ assembly.SetAt lookup asked key := by
  have hall := crawlAll_of_crawl h
  have hinit : assembly.Recorded lookup start (start, {}) :=
    ⟨.start, fun key hkey => absurd hkey (KeySet.not_mem_empty key)⟩
  have hk := crawlAll_keeps (crawls_recorded start) limit (start, {}) hinit
  rw [hall] at hk
  exact ⟨fun key hkey => crawlAll_brings hkey hall, hk.2⟩

/-! ## An example -/

/-- One referenced type, its constructor, and an attribute of that type on the assembly
    itself. -/
def attributedRows : TableId → List (List UInt8)
  | .typeRef => [[6, 0, 1, 0, 3, 0]]
  | .memberRef => [[9, 0, 5, 0, 1, 0]]
  | .customAttribute => [[46, 0, 11, 0, 5, 0]]
  | _ => []

/-- An assembly with an attribute that sets a field to true. -/
def attributed : Assembly :=
  .ofRows attributedRows [0, 65, 0, 78, 0, 46, 99, 0]
    [0, 3, 0x20, 0, 1, 9, 1, 0, 1, 0, 0x53, 2, 1, 70, 1]
    { attributes := RowIndex.group [(self, 1)] }

theorem attributesOf_attributed :
    attributed.attributesOf self = .ok [⟨1, ⟨.assembly, 1⟩, ⟨.memberRef, 1⟩, 5⟩] := by
  rw [attributesOf]
  show attributed.rowsOf _ ((RowIndex.group [(self, 1)]).get self) = _
  rw [RowIndex.get_group]
  rfl

theorem crawl_attributed :
    ∃ keys, attributed.crawl (EnumLookup.none (σ := Unit)) 100 () = (.ok keys, ()) := by
  have hok : (attributed.crawl (EnumLookup.none (σ := Unit)) 100 ()).1.isOk = true := by
    unfold crawl crawlAll crawlAttributes
    rw [attributesOf_attributed]
    decide +kernel
  obtain ⟨keys, hkeys⟩ := exists_ok_of_isOk hok
  exact ⟨keys, Prod.ext hkeys rfl⟩

theorem crawl_keys_attributed :
    ∃ keys, attributed.crawl (EnumLookup.none (σ := Unit)) 100 () = (.ok keys, ()) ∧
      (∀ key, attributed.Referenced key → key ∈ keys) ∧
      ∀ key ∈ keys, attributed.Referenced key ∨ (∃ type, key = primitiveKey type) ∨
        ∃ asked, EnumLookup.none.Reached () asked ∧
          attributed.SetAt (EnumLookup.none (σ := Unit)) asked key := by
  obtain ⟨keys, hkeys⟩ := crawl_attributed
  exact ⟨keys, hkeys, crawl_keys hkeys⟩

end Assembly

end ApiCensus
