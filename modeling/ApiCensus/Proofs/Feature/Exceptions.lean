/-
  Which exceptions are reported.

  * `Instruction.ThrowsNew`: code makes an object with a constructor and throws it at once.
  * `Collecting.Adds`: a run that ends well adds the facts of which something holds, and no
    others; `Adds.forM` and its companions derive it from the steps.
  * `Assembly.ThrownAs`, `Assembly.CaughtAs`: what is reported about a constructor or a type.
  * `Assembly.mem_exceptions_iff`: the facts are those about what some body throws or catches.
-/
import ApiCensus.Feature.Exceptions
import ApiCensus.Proofs.Assembly.Owners
import ApiCensus.Proofs.Attempt

namespace ApiCensus

open Attempt

variable {α β : Type}

/-! ## Instructions -/

/-- The two stand side by side in the list. -/
theorem mem_zip_drop_one_iff {items : List α} {x y : α} :
    (x, y) ∈ items.zip (items.drop 1) ↔ ∃ front back, items = front ++ x :: y :: back := by
  induction items with
  | nil => simp
  | cons first rest ih =>
    cases rest with
    | nil =>
      constructor
      · intro h
        simp at h
      · rintro ⟨front, back, h⟩
        have hlength := congrArg List.length h
        simp at hlength
        omega
    | cons second rest =>
      constructor
      · intro h
        rcases List.mem_cons.1 h with h | h
        · obtain ⟨rfl, rfl⟩ := Prod.mk.inj h
          exact ⟨[], rest, rfl⟩
        · obtain ⟨front, back, h⟩ := ih.1 h
          exact ⟨first :: front, back, congrArg _ h⟩
      · rintro ⟨front, back, h⟩
        refine List.mem_cons.2 ?_
        cases front with
        | nil =>
          obtain ⟨rfl, hrest⟩ := List.cons.inj h
          rw [(List.cons.inj hrest).1]
          exact .inl rfl
        | cons other front => exact .inr (ih.2 ⟨front, back, (List.cons.inj h).2⟩)

/-- Two elements are side by side once some are left out, if nothing else stands between them. -/
theorem adjacent_filter_iff {p : α → Bool} {items : List α} {x y : α} :
    (∃ front back, items.filter p = front ++ x :: y :: back) ↔
      ∃ front passed back, items = front ++ x :: (passed ++ y :: back) ∧
        (∀ item ∈ passed, ¬ p item) ∧ p x ∧ p y := by
  constructor
  · rintro ⟨front, back, h⟩
    obtain ⟨before, behind, rfl, -, h⟩ := List.filter_eq_append_iff.1 h
    obtain ⟨skipped, behind, rfl, -, hx, h⟩ := List.filter_eq_cons_iff.1 h
    obtain ⟨passed, behind, rfl, hpassed, hy, -⟩ := List.filter_eq_cons_iff.1 h
    exact ⟨before ++ skipped, passed, behind, by simp, hpassed, hx, hy⟩
  · rintro ⟨front, passed, back, rfl, hpassed, hx, hy⟩
    refine ⟨front.filter p, back.filter p, ?_⟩
    have hnone : passed.filter p = [] := List.filter_eq_nil_iff.2 hpassed
    simp [hx, hy, hnone]

namespace Instruction

/-- Code makes an object with a constructor and throws it, with nothing in between but
    instructions that do nothing. -/
def ThrowsNew (code : List Instruction) (constructor : Token) : Prop :=
  ∃ front maker nops thrower back,
    code = front ++ maker :: (nops ++ thrower :: back) ∧
    maker.opcode = Opcode.newObject ∧ maker.token = some constructor ∧
    (∀ instruction ∈ nops, instruction.opcode = Opcode.nop) ∧
    thrower.opcode = Opcode.throwObject

variable {code : List Instruction} {constructor : Token} {maker thrower : Instruction}

theorem thrownBy_eq_some_iff :
    thrownBy maker thrower = some constructor ↔
      maker.opcode = Opcode.newObject ∧ maker.token = some constructor ∧
        thrower.opcode = Opcode.throwObject := by
  rw [thrownBy]
  constructor
  · intro h
    split at h
    · rename_i hopcodes
      exact ⟨hopcodes.1, h, hopcodes.2⟩
    · cases h
  · rintro ⟨hmaker, htoken, hthrower⟩
    rw [if_pos ⟨hmaker, hthrower⟩, htoken]

theorem mem_thrown_iff : constructor ∈ thrown code ↔ ThrowsNew code constructor := by
  rw [thrown, List.mem_filterMap]
  constructor
  · rintro ⟨⟨maker, thrower⟩, hpair, hthrown⟩
    obtain ⟨hmaker, htoken, hthrower⟩ := thrownBy_eq_some_iff.1 hthrown
    obtain ⟨front, nops, back, hcode, hnops, -, -⟩ :=
      adjacent_filter_iff.1 (mem_zip_drop_one_iff.1 hpair)
    have hnop : ∀ instruction ∈ nops, instruction.opcode = Opcode.nop := by
      intro instruction h
      have hpassed := hnops instruction h
      simpa using hpassed
    exact ⟨front, maker, nops, thrower, back, hcode, hmaker, htoken, hnop, hthrower⟩
  · rintro ⟨front, maker, nops, thrower, back, hcode, hmaker, htoken, hnops, hthrower⟩
    refine ⟨(maker, thrower), ?_, thrownBy_eq_some_iff.2 ⟨hmaker, htoken, hthrower⟩⟩
    refine mem_zip_drop_one_iff.2 (adjacent_filter_iff.2 ⟨front, nops, back, hcode, ?_, ?_, ?_⟩)
    · intro instruction h
      simp [hnops instruction h]
    · rw [hmaker]
      decide
    · rw [hthrower]
      decide

end Instruction

/-! ## Facts -/

namespace Collecting

/-- A run that ends well adds the facts of which `P` holds, and no others. -/
def Adds (P : Fact → Prop) (step : Collecting α) : Prop :=
  ∀ place after a, step place = (.ok a, after) →
    ∀ fact, fact ∈ after.2 ↔ fact ∈ place.2 ∨ P fact

variable {P Q : Fact → Prop}

theorem Adds.congr {step : Collecting α} (h : Adds P step) (hPQ : ∀ fact, P fact ↔ Q fact) :
    Adds Q step := by
  intro place after a hrun fact
  rw [h place after a hrun fact, hPQ]

theorem Adds.pure (a : α) : Adds (fun _ => False) (Pure.pure a : Collecting α) := by
  intro place after b hrun fact
  obtain rfl : place = after := congrArg Prod.snd hrun
  simp

theorem Adds.report (fact : Fact) : Adds (· = fact) (Collecting.report fact) := by
  rintro ⟨diagnostics, facts⟩ after a hrun other
  obtain rfl : (diagnostics, facts.insert fact) = after := congrArg Prod.snd hrun
  rw [Std.HashSet.mem_insert, beq_iff_eq, or_comm, eq_comm]

theorem Adds.reportSome (fact : ApiKey → Fact) (id : Option String) :
    Adds (fun other => ∃ text, id = some text ∧ other = fact ⟨text⟩)
      (Collecting.reportSome fact id) := by
  cases id with
  | none =>
    refine (Adds.pure ()).congr fun other => ?_
    simp
  | some text =>
    refine (Adds.report (fact ⟨text⟩)).congr fun other => ?_
    simp

/-- What is noticed does not add anything. -/
theorem Adds.noticing_bind {step : StateM Diagnostics α} {next : α → Collecting β}
    (h : ∀ diagnostics, Adds P (next (step diagnostics).1)) :
    Adds P (Collecting.noticing step >>= next) := by
  rintro ⟨diagnostics, facts⟩ after b hrun fact
  exact h diagnostics _ after b hrun fact

theorem Adds.bind_liftM {result : Except Fault α} {next : α → Collecting β}
    (h : ∀ a, result = .ok a → Adds P (next a)) : Adds P (liftM result >>= next) := by
  intro place after b hrun fact
  obtain ⟨a, place, hresult, hnext⟩ := bind_eq_ok hrun
  obtain ⟨rfl, rfl⟩ := Prod.mk.inj hresult
  exact h a rfl place after b hnext fact

theorem Adds.ite {c : Prop} [Decidable c] {step other : Collecting α} (hs : c → Adds P step)
    (ho : ¬ c → Adds P other) : Adds P (if c then step else other) := by
  by_cases hc : c
  · rw [if_pos hc]
    exact hs hc
  · rw [if_neg hc]
    exact ho hc

theorem Adds.andThen {step : Collecting α} {next : Collecting β} (hs : Adds P step)
    (hn : Adds Q next) : Adds (fun fact => P fact ∨ Q fact) (step >>= fun _ => next) := by
  intro place after b hrun fact
  obtain ⟨a, between, hstep, hnext⟩ := bind_eq_ok hrun
  rw [hn between after b hnext fact, hs place between a hstep fact, or_assoc]

theorem Adds.forM {items : List α} {step : α → Collecting Unit} {P : α → Fact → Prop}
    (h : ∀ item ∈ items, Adds (P item) (step item)) :
    Adds (fun fact => ∃ item ∈ items, P item fact) (items.forM step) := by
  induction items with
  | nil =>
    refine (Adds.pure ()).congr fun fact => ?_
    simp
  | cons item items ih =>
    have hrest := ih fun other ho => h other (List.mem_cons_of_mem item ho)
    show Adds _ (step item >>= fun _ => items.forM step)
    refine ((h item List.mem_cons_self).andThen hrest).congr fun fact => ?_
    simp [List.mem_cons]

end Collecting

/-! ## Reports -/

namespace Assembly

variable {assembly : Assembly} {fact : Fact}

/-- Some method of some type has this body. -/
def HasBody (assembly : Assembly) (body : MethodBody) : Prop :=
  ∃ type methods method, .ok type ∈ assembly.definitions ∧
    assembly.methodsOf type = .ok methods ∧ method ∈ methods ∧
    method.hasBody = true ∧ assembly.bodyAt method.address = .ok body

/-- The constructor belongs to a type of another assembly, and has a documentation ID. It is no
    field, which is what the low four bits of its signature would say. -/
def ThrownAs (assembly : Assembly) (constructor : Token) (id : String) : Prop :=
  ∃ member parent signature lead, constructor.isIn .memberRef = true ∧
    assembly.row MemberRefRow constructor.row = .ok member ∧
    assembly.documentationParent member = .ok (some parent) ∧ parent.isIn .typeRef = true ∧
    assembly.blob member.signature = .ok signature ∧ signature[0]? = some lead ∧
    lead.toNat % 0x10 ≠ 6 ∧ assembly.memberRefId member = .ok (some id)

/-- A token names a type directly, or a specification that instantiates it. -/
inductive NamesType (assembly : Assembly) (type : Token) : Token → Prop
  | directly : NamesType assembly type type
  | instantiated {row : TypeSpecRow} {target : Token} (hspec : type.isIn .typeSpec = true)
      (hrow : assembly.row TypeSpecRow type.row = .ok row)
      (htarget : assembly.instantiatedType row = .ok (some target)) :
      NamesType assembly type target

/-- A token names a type of another assembly that has a documentation ID. -/
def CaughtAs (assembly : Assembly) (type : Token) (id : String) : Prop :=
  ∃ target row, assembly.NamesType type target ∧ target.isIn .typeRef = true ∧
    assembly.row TypeRefRow target.row = .ok row ∧ assembly.typeRefId row = .ok (some id)

/-- What a body throws and catches. -/
inductive Raises (assembly : Assembly) (body : MethodBody) : Fact → Prop
  | throws {constructor : Token} {id : String}
      (hcode : Instruction.ThrowsNew (Instruction.ofCode body.code) constructor)
      (hid : assembly.ThrownAs constructor id) : Raises assembly body (.throws ⟨id⟩)
  | catches {clause : ExceptionClause} {type : Token} {id : String}
      (hclause : clause ∈ body.clauses) (htype : clause.classToken = some type)
      (hid : assembly.CaughtAs type id) : Raises assembly body (.catches ⟨id⟩)

/-! ## Constructors -/

theorem row_ne_zero {α : Type} [MetadataRow α] {rid : Nat} {entry : α}
    (h : assembly.row α rid = .ok entry) : rid ≠ 0 := by
  rintro rfl
  rw [row, Table.get, if_pos (Or.inl rfl)] at h
  cases h

theorem isNil_of_row {α : Type} [MetadataRow α] {token : Token} {entry : α}
    (h : assembly.row α token.row = .ok entry) : token.isNil = false := by
  rw [Token.isNil, beq_eq_false_iff_ne]
  exact row_ne_zero h

theorem isFieldReference_eq_false_iff {member : MemberRefRow} :
    assembly.isFieldReference member = .ok false ↔ ∃ signature lead,
      assembly.blob member.signature = .ok signature ∧ signature[0]? = some lead ∧
        lead.toNat % 0x10 ≠ 6 := by
  have hkind : ∀ lead : UInt8, lead.toNat % 0x10 ≠ 6 ↔
      ((Signature.Header.mk lead).kind == .field) = false := by
    intro lead
    rw [beq_eq_false_iff_ne, ne_eq, ne_eq, Signature.Header.kind_eq_field_iff]
    rfl
  simp only [hkind]
  rw [isFieldReference]
  rcases assembly.blob member.signature with fault | signature
  · simp [bind, Except.bind]
  · have hdata : signature.data[0]? = signature[0]? := by
      simp only [getElem?_def]
      rfl
    simp only [bind, Except.bind, hdata]
    cases hlead : signature[0]? with
    | none => simp [hlead, throw, throwThe, MonadExceptOf.throw]
    | some lead => simp [hlead, pure, Except.pure]

theorem externalMember_eq_some_iff {token : Token} {member : MemberRefRow} :
    assembly.externalMember token = .ok (some member) ↔
      token.isIn .memberRef = true ∧ assembly.row MemberRefRow token.row = .ok member ∧
        ∃ parent, assembly.documentationParent member = .ok (some parent) ∧
          parent.isIn .typeRef = true := by
  rw [externalMember]
  constructor
  · intro h
    split at h
    · cases h
    · rename_i htoken
      obtain ⟨found, hrow, h⟩ := except_bind_eq_ok h
      obtain ⟨parent, hparent, h⟩ := except_bind_eq_ok h
      have hfound := Except.ok.inj h
      split at hfound
      · rename_i hany
        obtain rfl := Option.some.inj hfound
        obtain ⟨token, rfl, htable⟩ := (Option.any_eq_true _ _).1 hany
        simp at htoken
        exact ⟨htoken.2, hrow, _, hparent, htable⟩
      · cases hfound
  · rintro ⟨htoken, hrow, parent, hparent, htable⟩
    simp only [isNil_of_row hrow, htoken, hrow, hparent, bind, Except.bind, Option.any_some, htable]
    rfl

open Collecting

theorem reportThrow_adds (constructor : Token) :
    Adds (fun fact => ∃ id, assembly.ThrownAs constructor id ∧ fact = .throws ⟨id⟩)
      (assembly.reportThrow constructor) := by
  have hknown : ∀ id, assembly.ThrownAs constructor id ↔ ∃ member,
      assembly.externalMember constructor = .ok (some member) ∧
        assembly.isFieldReference member = .ok false ∧
        assembly.memberRefId member = .ok (some id) := by
    intro id
    constructor
    · rintro ⟨member, parent, signature, lead, htoken, hrow, hparent, htable, hblob, hlead, hkind,
        hid⟩
      have hmember := externalMember_eq_some_iff.2 ⟨htoken, hrow, parent, hparent, htable⟩
      have hfield := isFieldReference_eq_false_iff.2 ⟨signature, lead, hblob, hlead, hkind⟩
      exact ⟨member, hmember, hfield, hid⟩
    · rintro ⟨member, hmember, hfield, hid⟩
      obtain ⟨htoken, hrow, parent, hparent, htable⟩ := externalMember_eq_some_iff.1 hmember
      obtain ⟨signature, lead, hblob, hlead, hkind⟩ := isFieldReference_eq_false_iff.1 hfield
      exact ⟨member, parent, signature, lead, htoken, hrow, hparent, htable, hblob, hlead, hkind,
        hid⟩
  simp only [hknown]
  refine Adds.bind_liftM fun found hfound => ?_
  cases found with
  | none =>
    refine (Adds.pure ()).congr fun fact => ?_
    simp [hfound]
  | some member =>
    refine Adds.bind_liftM fun isField hfield => Adds.ite (fun hc => ?_) fun hc => ?_
    · refine (Adds.pure ()).congr fun fact => ?_
      simp [hfound, hfield, hc]
    · refine Adds.bind_liftM fun id hid => (Adds.reportSome Fact.throws id).congr fun fact => ?_
      simp [hfound, hfield, hc, hid]

/-! ## Types -/

theorem reportName_adds (target : Option Token) :
    Adds (fun fact => ∃ id, assembly.referencedTypeId target = .ok (some id) ∧
        fact = .catches ⟨id⟩)
      (do Collecting.reportSome Fact.catches (← assembly.referencedTypeId target)) := by
  refine Adds.bind_liftM fun id hid => (Adds.reportSome Fact.catches id).congr fun fact => ?_
  simp [hid]

theorem referencedTypeId_eq_some_iff {target : Option Token} {id : String} :
    assembly.referencedTypeId target = .ok (some id) ↔
      ∃ token row, target = some token ∧ token.isIn .typeRef = true ∧
        assembly.row TypeRefRow token.row = .ok row ∧ assembly.typeRefId row = .ok (some id) := by
  rw [referencedTypeId]
  constructor
  · intro h
    split at h
    · rename_i token htoken
      obtain ⟨hsome, htable⟩ := Option.filter_eq_some_iff.1 htoken
      obtain ⟨row, hrow, hid⟩ := except_bind_eq_ok h
      exact ⟨token, row, hsome, htable, hrow, hid⟩
    · cases h
  · rintro ⟨token, row, rfl, htable, hrow, hid⟩
    simp only [Option.filter_some, htable, if_true, hrow]
    exact hid

theorem caughtAs_iff {type : Token} {id : String} :
    assembly.CaughtAs type id ↔ ∃ target, assembly.NamesType type target ∧
      assembly.referencedTypeId (some target) = .ok (some id) := by
  constructor
  · rintro ⟨target, row, hnames, htable, hrow, hid⟩
    exact ⟨target, hnames, referencedTypeId_eq_some_iff.2 ⟨target, row, rfl, htable, hrow, hid⟩⟩
  · rintro ⟨target, hnames, hreferenced⟩
    obtain ⟨_, row, ⟨⟩, htable, hrow, hid⟩ := referencedTypeId_eq_some_iff.1 hreferenced
    exact ⟨target, row, hnames, htable, hrow, hid⟩

theorem isNil_of_caughtAs {type : Token} {id : String} (h : assembly.CaughtAs type id) :
    type.isNil = false := by
  obtain ⟨target, row, hnames, -, hrow, -⟩ := h
  cases hnames with
  | directly => exact isNil_of_row hrow
  | instantiated _ hspec _ => exact isNil_of_row hspec

/-- A specification names no referenced type itself. -/
theorem caughtAs_iff_of_spec {type : Token} {id : String} {row : TypeSpecRow}
    {target : Option Token} (htype : type.isIn .typeSpec = true)
    (hrow : assembly.row TypeSpecRow type.row = .ok row)
    (htarget : assembly.instantiatedType row = .ok target) :
    assembly.CaughtAs type id ↔ assembly.referencedTypeId target = .ok (some id) := by
  rw [caughtAs_iff]
  constructor
  · rintro ⟨named, hnames, hid⟩
    cases hnames with
    | directly =>
      obtain ⟨_, _, ⟨⟩, htable, -⟩ := referencedTypeId_eq_some_iff.1 hid
      rw [Token.isIn, beq_iff_eq] at htype htable
      rw [htype] at htable
      exact absurd htable (by decide)
    | instantiated _ hfound hinstantiated =>
      obtain rfl := Except.ok.inj (hfound.symm.trans hrow)
      rwa [Except.ok.inj (htarget.symm.trans hinstantiated)]
  · intro hid
    obtain ⟨named, _, rfl, -⟩ := referencedTypeId_eq_some_iff.1 hid
    exact ⟨named, .instantiated htype hrow htarget, hid⟩

theorem caughtAs_iff_of_not_spec {type : Token} {id : String} (htype : ¬ type.isIn .typeSpec) :
    assembly.CaughtAs type id ↔ assembly.referencedTypeId (some type) = .ok (some id) := by
  rw [caughtAs_iff]
  constructor
  · rintro ⟨named, hnames, hid⟩
    cases hnames with
    | directly => exact hid
    | instantiated hspec _ _ => exact absurd hspec htype
  · exact fun hid => ⟨type, .directly, hid⟩

theorem reportCatch_adds (type : Token) :
    Adds (fun fact => ∃ id, assembly.CaughtAs type id ∧ fact = .catches ⟨id⟩)
      (assembly.reportCatch type) := by
  refine Adds.ite (fun hnil => ?_) fun _ => Adds.ite (fun hspec => ?_) fun hspec => ?_
  · refine (Adds.pure ()).congr fun fact => ?_
    constructor
    · exact False.elim
    · rintro ⟨id, hid, -⟩
      rw [isNil_of_caughtAs hid] at hnil
      cases hnil
  · refine Adds.bind_liftM fun row hrow => Adds.bind_liftM fun target htarget => ?_
    simp only [caughtAs_iff_of_spec hspec hrow htarget]
    exact reportName_adds target
  · simp only [caughtAs_iff_of_not_spec hspec]
    exact reportName_adds (some type)

/-! ## Bodies -/

theorem bodyOf_eq_some_iff {method : MethodDefRow} {diagnostics : Diagnostics} {body : MethodBody} :
    (assembly.bodyOf method diagnostics).1 = some body ↔
      method.hasBody = true ∧ assembly.bodyAt method.address = .ok body := by
  rw [bodyOf]
  by_cases hbody : method.hasBody = true
  · rw [if_pos hbody]
    cases hat : assembly.bodyAt method.address with
    | ok found =>
      show some found = some body ↔ _
      simp [hbody]
    | error fault =>
      show none = some body ↔ _
      simp
  · rw [if_neg hbody]
    show none = some body ↔ _
    simp [hbody]

theorem reportBody_adds (body : MethodBody) :
    Adds (assembly.Raises body) (do
      (Instruction.thrown (Instruction.ofCode body.code)).forM assembly.reportThrow
      (body.clauses.filterMap ExceptionClause.classToken).forM assembly.reportCatch) := by
  refine ((Adds.forM fun constructor _ => reportThrow_adds constructor).andThen
    (Adds.forM fun type _ => reportCatch_adds type)).congr fun fact => ?_
  constructor
  · rintro (⟨constructor, hcode, id, hid, rfl⟩ | ⟨type, hclause, id, hid, rfl⟩)
    · exact .throws (Instruction.mem_thrown_iff.1 hcode) hid
    · obtain ⟨clause, hclause, htype⟩ := List.mem_filterMap.1 hclause
      exact .catches hclause htype hid
  · intro hraises
    cases hraises with
    | @throws constructor id hcode hid =>
      exact .inl ⟨constructor, Instruction.mem_thrown_iff.2 hcode, id, hid, rfl⟩
    | @catches clause type id hclause htype hid =>
      exact .inr ⟨type, List.mem_filterMap.2 ⟨clause, hclause, htype⟩, id, hid, rfl⟩

theorem reportExceptions_adds (method : MethodDefRow) :
    Adds (fun fact => ∃ body, (method.hasBody = true ∧
        assembly.bodyAt method.address = .ok body) ∧ assembly.Raises body fact)
      (assembly.reportExceptions method) := by
  refine Adds.noticing_bind fun diagnostics => ?_
  have hbody : ∀ body, (assembly.bodyOf method diagnostics).1 = some body ↔
      method.hasBody = true ∧ assembly.bodyAt method.address = .ok body :=
    fun _ => bodyOf_eq_some_iff
  simp only [← hbody]
  cases (assembly.bodyOf method diagnostics).1 with
  | none =>
    refine (Adds.pure ()).congr fun fact => ?_
    simp
  | some body =>
    refine (reportBody_adds body).congr fun fact => ?_
    constructor
    · exact fun hraises => ⟨body, rfl, hraises⟩
    · rintro ⟨_, ⟨⟩, hraises⟩
      exact hraises

theorem eachMethod_adds {visit : MethodDefRow → Collecting Unit} {P : MethodDefRow → Fact → Prop}
    (h : ∀ method, Adds (P method) (visit method)) :
    Adds (fun fact => ∃ type methods method, .ok type ∈ assembly.definitions ∧
        assembly.methodsOf type = .ok methods ∧ method ∈ methods ∧ P method fact)
      (assembly.eachMethod visit) := by
  have hvisited : ∀ row : Except Fault TypeDefRow,
      Adds (fun fact => ∃ type methods method, row = .ok type ∧
          assembly.methodsOf type = .ok methods ∧ method ∈ methods ∧ P method fact)
        (do (← assembly.methodsOf (← row)).forM visit) := by
    intro row
    refine Adds.bind_liftM fun type htype => Adds.bind_liftM fun methods hmethods => ?_
    refine (Adds.forM fun method _ => h method).congr fun fact => ?_
    simp [htype, hmethods]
  refine (Adds.forM fun row _ => hvisited row).congr fun fact => ?_
  constructor
  · rintro ⟨_, hrow, type, methods, method, rfl, hmethods⟩
    exact ⟨type, methods, method, hrow, hmethods⟩
  · rintro ⟨type, methods, method, hrow, hmethods⟩
    exact ⟨_, hrow, type, methods, method, rfl, hmethods⟩

theorem exceptions_adds (framework : Option TargetFramework) :
    Adds (fun fact => ∃ body, assembly.HasBody body ∧ assembly.Raises body fact)
      (Collector.exceptions.collect assembly framework) := by
  dsimp only [Collector.exceptions]
  refine (eachMethod_adds reportExceptions_adds).congr fun fact => ?_
  constructor
  · rintro ⟨type, methods, method, htype, hmethods, hmethod, body, ⟨hhas, hbody⟩, hraises⟩
    exact ⟨body, ⟨type, methods, method, htype, hmethods, hmethod, hhas, hbody⟩, hraises⟩
  · rintro ⟨body, ⟨type, methods, method, htype, hmethods, hmethod, hhas, hbody⟩, hraises⟩
    exact ⟨type, methods, method, htype, hmethods, hmethod, body, ⟨hhas, hbody⟩, hraises⟩

/-! ## Results -/

theorem mem_facts_iff_of_adds {collector : Collector} {framework : Option TargetFramework}
    {result : CollectorResult} {before after : Diagnostics} {P : Fact → Prop}
    (hadds : Adds P (collector.collect assembly framework))
    (hrun : collector.run assembly framework before = ((result, none), after)) (fact : Fact) :
    fact ∈ result.facts ↔ P fact := by
  rw [Collector.run] at hrun
  split at hrun
  · rename_i hcollect
    cases hrun
    have hmem := hadds _ _ _ hcollect fact
    simpa using hmem
  · cases hrun

/-- **If nothing fails, the exceptions that are reported as thrown are those whose constructors
    some body calls and throws the result of, with nothing in between but instructions that do
    nothing, as far as they belong to types of other assemblies; the exceptions that are reported
    as caught are the types of other assemblies that the clauses of such bodies name.** -/
theorem mem_exceptions_iff {framework : Option TargetFramework} {result : CollectorResult}
    {before after : Diagnostics}
    (h : Collector.exceptions.run assembly framework before = ((result, none), after))
    (id : String) :
    (Fact.throws ⟨id⟩ ∈ result.facts ↔ ∃ body constructor, assembly.HasBody body ∧
      Instruction.ThrowsNew (Instruction.ofCode body.code) constructor ∧
      assembly.ThrownAs constructor id) ∧
    (Fact.catches ⟨id⟩ ∈ result.facts ↔ ∃ body clause type, assembly.HasBody body ∧
      clause ∈ body.clauses ∧ clause.classToken = some type ∧ assembly.CaughtAs type id) := by
  have hfacts := mem_facts_iff_of_adds (exceptions_adds framework) h
  constructor
  · rw [hfacts]
    constructor
    · rintro ⟨body, hbody, hraises⟩
      cases hraises with
      | throws hcode hid => exact ⟨body, _, hbody, hcode, hid⟩
    · rintro ⟨body, constructor, hbody, hcode, hid⟩
      exact ⟨body, hbody, .throws hcode hid⟩
  · rw [hfacts]
    constructor
    · rintro ⟨body, hbody, hraises⟩
      cases hraises with
      | catches hclause htype hid => exact ⟨body, _, _, hbody, hclause, htype, hid⟩
    · rintro ⟨body, clause, type, hbody, hclause, htype, hid⟩
      exact ⟨body, hbody, .catches hclause htype hid⟩

/-! ## An example -/

/-- The body of a method that throws a new object behind an instruction that does nothing, and
    that catches one. -/
def throwingBody : List UInt8 :=
  [0x0B, 0x30, 8, 0, 7, 0, 0, 0, 0, 0, 0, 0] ++ [0x73, 1, 0, 0, 0x0A, 0, 0x7A, 0]
    ++ [1, 16, 0, 0] ++ [0, 0, 0, 0, 7, 7, 0, 0, 1, 0, 0, 1]

/-- A referenced type with a constructor, and a type with a method. -/
def throwingRows : TableId → List (List UInt8)
  | .typeRef => [[6, 0, 1, 0, 3, 0]]
  | .typeDef => [[0, 0, 0, 0, 1, 0, 0, 0, 0, 0, 1, 0, 1, 0]]
  | .methodDef => [[0, 0x20, 0, 0, 0, 0, 0, 0, 5, 0, 1, 0, 1, 0]]
  | .memberRef => [[9, 0, 5, 0, 1, 0]]
  | _ => []

/-- An assembly with one method, which throws and catches what is of another assembly. -/
def throwing : Assembly :=
  let rest := Assembly.ofRows throwingRows [0, 65, 0, 78, 0, 70, 0] [0, 3, 0x20, 0, 1] {}
  { rest with image :=
      { data := throwingBody.toByteArray
        sections := [⟨0x2000, throwingBody.length, 0, throwingBody.length⟩], runtime := {} } }

/-- The body, decoded. -/
def thrownBody : MethodBody where
  code := ⟨#[0x73, 1, 0, 0, 0x0A, 0, 0x7A]⟩
  headerSize := 12
  locals := 0
  maxStack := 8
  isFat := true
  initializesLocals := false
  clauses := [⟨0, 0, 7, 7, 0, 0x01000001⟩]

theorem thrown_thrownBody :
    Instruction.thrown (Instruction.ofCode thrownBody.code) = [Token.ofRow .memberRef 1] := by
  decide +kernel

theorem reportThrow_throwing (place : Diagnostics × FactSet) :
    throwing.reportThrow (Token.ofRow .memberRef 1) place =
      (.ok (), (place.1, place.2.insert (.throws ⟨"M:N.A.F"⟩))) := by
  have hmember : throwing.externalMember (Token.ofRow .memberRef 1) =
      .ok (some ⟨1, ⟨.typeRef, 1⟩, 5, 1⟩) := rfl
  have hfield : throwing.isFieldReference ⟨1, ⟨.typeRef, 1⟩, 5, 1⟩ = .ok false := rfl
  have hid : throwing.memberRefId ⟨1, ⟨.typeRef, 1⟩, 5, 1⟩ = .ok (some "M:N.A.F") :=
    eq_ok_of_toOption (by decide +kernel)
  rw [reportThrow, hmember, bind_liftM_ok]
  dsimp only
  rw [hfield, bind_liftM_ok, if_neg (by decide), hid, bind_liftM_ok]
  rfl

theorem reportCatch_throwing (place : Diagnostics × FactSet) :
    throwing.reportCatch (Token.ofRow .typeRef 1) place =
      (.ok (), (place.1, place.2.insert (.catches ⟨"T:N.A"⟩))) := by
  have hid : throwing.referencedTypeId (some (Token.ofRow .typeRef 1)) = .ok (some "T:N.A") :=
    eq_ok_of_toOption (by decide +kernel)
  rw [reportCatch, if_neg (by decide), if_neg (by decide), pure_bind]
  dsimp only
  rw [hid, bind_liftM_ok]
  rfl

theorem reportExceptions_throwing (place : Diagnostics × FactSet) :
    throwing.reportExceptions ⟨1, 0x2000, 0, 0, 5, 1, 1⟩ place =
      (.ok (), (place.1,
        (place.2.insert (.throws ⟨"M:N.A.F"⟩)).insert (.catches ⟨"T:N.A"⟩))) := by
  have hbody : throwing.bodyOf ⟨1, 0x2000, 0, 0, 5, 1, 1⟩ place.1 = (some thrownBody, place.1) :=
    rfl
  have hbodies : Collecting.noticing (throwing.bodyOf ⟨1, 0x2000, 0, 0, 5, 1, 1⟩) place =
      (.ok (some thrownBody), place) := by
    rw [Collecting.noticing, hbody]
  rw [reportExceptions, bind_apply_ok hbodies]
  show ((Instruction.thrown (Instruction.ofCode thrownBody.code)).forM _ >>= fun _ =>
    [Token.ofRow .typeRef 1].forM throwing.reportCatch) place = _
  rw [thrown_thrownBody]
  have hthrow : [Token.ofRow .memberRef 1].forM throwing.reportThrow place = _ :=
    bind_apply_ok (reportThrow_throwing place)
  rw [bind_apply_ok hthrow]
  exact bind_apply_ok (reportCatch_throwing _)

theorem collect_throwing (framework : Option TargetFramework) (place : Diagnostics × FactSet) :
    Collector.exceptions.collect throwing framework place = (.ok (), (place.1,
      (place.2.insert (.throws ⟨"M:N.A.F"⟩)).insert (.catches ⟨"T:N.A"⟩))) := by
  have hdefinitions : throwing.definitions = [.ok ⟨1, 0, 1, 0, ⟨.typeDef, 0⟩, 1, 1⟩] := rfl
  have hmethods : throwing.methodsOf ⟨1, 0, 1, 0, ⟨.typeDef, 0⟩, 1, 1⟩ =
      .ok [⟨1, 0x2000, 0, 0, 5, 1, 1⟩] := rfl
  dsimp only [Collector.exceptions]
  rw [eachMethod, eachDefinition, hdefinitions]
  refine bind_apply_ok (a := ()) ?_
  dsimp only
  rw [bind_liftM_ok, hmethods, bind_liftM_ok]
  exact bind_apply_ok (reportExceptions_throwing place)

theorem run_throwing (framework : Option TargetFramework) (before : Diagnostics) :
    ∃ result, Collector.exceptions.run throwing framework before = ((result, none), before) ∧
      .throws ⟨"M:N.A.F"⟩ ∈ result.facts ∧ .catches ⟨"T:N.A"⟩ ∈ result.facts := by
  refine ⟨_, by rw [Collector.run, collect_throwing], ?_, ?_⟩
  · exact Std.HashSet.mem_insert.2 (.inr Std.HashSet.mem_insert_self)
  · exact Std.HashSet.mem_insert_self

theorem mem_exceptions_throwing :
    (∃ body constructor, throwing.HasBody body ∧
      Instruction.ThrowsNew (Instruction.ofCode body.code) constructor ∧
      throwing.ThrownAs constructor "M:N.A.F") ∧
    ∃ body clause type, throwing.HasBody body ∧ clause ∈ body.clauses ∧
      clause.classToken = some type ∧ throwing.CaughtAs type "T:N.A" := by
  obtain ⟨result, hrun, hthrown, hcaught⟩ := run_throwing none {}
  exact ⟨(mem_exceptions_iff hrun _).1.1 hthrown, (mem_exceptions_iff hrun _).2.1 hcaught⟩

end Assembly

end ApiCensus
