/-
  What collectors report, a crawl records.

  * `Assembly.Told`: every API that a fact is about has a row for a referenced type or member.
  * `Assembly.collect_keeps`: no collector reports anything else.
  * `Assembly.facts_crawled`: the API of every fact is among the keys of a crawl.
-/
import ApiCensus.Feature.Census
import ApiCensus.Proofs.Api.Crawl

namespace ApiCensus

open Attempt

variable {σ α : Type}

namespace Collector

variable {assembly : Assembly} {framework : Option TargetFramework} {collector : Collector}
  {result : CollectorResult} {before after : Diagnostics}

theorem runAll_failed {fault : Fault}
    (h : collector.run assembly framework before = ((result, some fault), after))
    (rest : List Collector) :
    runAll assembly framework (collector :: rest) before =
      ((result :: rest.map emptyResult, some fault), after) := by
  simp only [runAll, bind, StateT.bind, h]
  rfl

theorem runAll_ended (h : collector.run assembly framework before = ((result, none), after))
    (rest : List Collector) :
    (runAll assembly framework (collector :: rest) before).1.1 =
      result :: (runAll assembly framework rest after).1.1 := by
  simp only [runAll, bind, StateT.bind, h]
  rfl

end Collector

namespace Assembly

variable {assembly : Assembly}

/-! ## Keys -/

theorem referenced_of_memberRefId {rid : Nat} {member : MemberRefRow} {id : String}
    (hrow : assembly.row MemberRefRow rid = .ok member)
    (hid : assembly.memberRefId member = .ok (some id)) : assembly.Referenced ⟨id⟩ := by
  have hforeign : member.parent.table ≠ .typeDef := by
    intro htable
    rw [memberRefId, htable, if_neg (by decide)] at hid
    exact absurd (Except.ok.inj hid) (by simp)
  exact .member hrow hforeign hid

theorem referenced_of_referencedTypeId {target : Option Token} {id : String}
    (h : assembly.referencedTypeId target = .ok (some id)) : assembly.Referenced ⟨id⟩ := by
  unfold referencedTypeId at h
  split at h
  · obtain ⟨type, hrow, hid⟩ := except_bind_eq_ok h
    exact .type hrow hid
  · exact absurd (Except.ok.inj h) (by simp)

theorem row_of_externalMember {token : Token} {member : MemberRefRow}
    (h : assembly.externalMember token = .ok (some member)) :
    assembly.row MemberRefRow token.row = .ok member := by
  unfold externalMember at h
  split at h
  · exact absurd (Except.ok.inj h) (by simp)
  · obtain ⟨found, hrow, h⟩ := except_bind_eq_ok h
    obtain ⟨parent, -, h⟩ := except_bind_eq_ok h
    have hfound := Except.ok.inj h
    split at hfound
    · rwa [← Option.some.inj hfound]
    · exact absurd hfound (by simp)

/-! ## Reports -/

/-- The API of every fact so far is a referenced type or member. -/
def Told (assembly : Assembly) (place : Diagnostics × FactSet) : Prop :=
  ∀ fact ∈ place.2, ∀ key, fact.api? = some key → assembly.Referenced key

theorem told_empty (diagnostics : Diagnostics) : assembly.Told (diagnostics, ∅) :=
  fun _ h => absurd h Std.HashSet.not_mem_empty

theorem report_keeps {fact : Fact} (h : ∀ key, fact.api? = some key → assembly.Referenced key) :
    Keeps assembly.Told (Collecting.report fact) := by
  rintro ⟨diagnostics, facts⟩ hp other ho key hkey
  rcases Std.HashSet.mem_insert.1 ho with heq | ho
  · rw [← eq_of_beq heq] at hkey
    exact h key hkey
  · exact hp other ho key hkey

theorem reportPlain_keeps {fact : Fact} (h : fact.api? = none) :
    Keeps assembly.Told (Collecting.report fact) :=
  report_keeps fun key hkey => absurd (h.symm.trans hkey) (by simp)

theorem reportSome_keeps {fact : ApiKey → Fact} {id : Option String}
    (hfact : ∀ key, (fact key).api? = some key)
    (hid : ∀ text, id = some text → assembly.Referenced ⟨text⟩) :
    Keeps assembly.Told (Collecting.reportSome fact id) := by
  cases id with
  | none => exact Keeps.pure ()
  | some text =>
    refine report_keeps fun key hkey => ?_
    rw [hfact] at hkey
    exact Option.some.inj hkey ▸ hid text rfl

theorem reportIfAny_keeps {fact : Fact} (hfact : fact.api? = none) (xs : List α)
    (p : α → Except Fault Bool) :
    Keeps assembly.Told (Collecting.reportIfAny fact xs p) := by
  refine Keeps.bind_liftM fun found _ => Keeps.ite (fun _ => ?_) fun _ => Keeps.pure ()
  exact reportPlain_keeps hfact

theorem noticing_keeps (step : StateM Diagnostics α) :
    Keeps assembly.Told (Collecting.noticing step) :=
  fun _ hp => hp

theorem eachDefinition_keeps {visit : TypeDefRow → Collecting Unit}
    (h : ∀ type, Keeps assembly.Told (visit type)) :
    Keeps assembly.Told (assembly.eachDefinition visit) :=
  Keeps.forM fun _ _ => Keeps.bind_liftM fun type _ => h type

theorem eachMethod_keeps {visit : MethodDefRow → Collecting Unit}
    (h : ∀ method, Keeps assembly.Told (visit method)) :
    Keeps assembly.Told (assembly.eachMethod visit) :=
  eachDefinition_keeps fun _ => Keeps.bind_liftM fun _ _ => Keeps.forM fun method _ => h method

/-- The fact about a type of another assembly. -/
theorem reportType_keeps {fact : ApiKey → Fact} (hfact : ∀ key, (fact key).api? = some key)
    (target : Option Token) :
    Keeps assembly.Told (do Collecting.reportSome fact (← assembly.referencedTypeId target)) :=
  Keeps.bind_liftM fun _ hid =>
    reportSome_keeps hfact fun _ htext => referenced_of_referencedTypeId (htext ▸ hid)

/-- The fact about a referenced member. -/
theorem reportMember_keeps {fact : ApiKey → Fact} (hfact : ∀ key, (fact key).api? = some key)
    {rid : Nat} {member : MemberRefRow} (hrow : assembly.row MemberRefRow rid = .ok member) :
    Keeps assembly.Told (do Collecting.reportSome fact (← assembly.memberRefId member)) :=
  Keeps.bind_liftM fun _ hid =>
    reportSome_keeps hfact fun _ htext => referenced_of_memberRefId hrow (htext ▸ hid)

/-! ## Collectors -/

theorem reportBase_keeps (base : CodedIndex) : Keeps assembly.Told (assembly.reportBase base) := by
  have hreport : ∀ target, Keeps assembly.Told (do
      Collecting.reportSome Fact.derivesFrom (← assembly.referencedTypeId target)) :=
    reportType_keeps fun _ => rfl
  refine Keeps.ite (fun _ => Keeps.pure ()) fun _ => Keeps.ite (fun _ => ?_) fun _ => ?_
  · exact Keeps.bind_liftM fun type _ => Keeps.bind_liftM fun target _ => hreport target
  · exact Keeps.bind (Keeps.pure _) hreport

theorem reportCatch_keeps (type : Token) : Keeps assembly.Told (assembly.reportCatch type) := by
  have hreport : ∀ target, Keeps assembly.Told (do
      Collecting.reportSome Fact.catches (← assembly.referencedTypeId target)) :=
    reportType_keeps fun _ => rfl
  refine Keeps.ite (fun _ => Keeps.pure ()) fun _ => Keeps.ite (fun _ => ?_) fun _ => ?_
  · exact Keeps.bind_liftM fun row _ => Keeps.bind_liftM fun target _ => hreport target
  · exact Keeps.bind (Keeps.pure _) hreport

theorem reportThrow_keeps (constructor : Token) :
    Keeps assembly.Told (assembly.reportThrow constructor) := by
  refine Keeps.bind_liftM fun found hfound => ?_
  cases found with
  | none => exact Keeps.pure ()
  | some member =>
    refine Keeps.bind_liftM fun isField _ => Keeps.ite (fun _ => Keeps.pure ()) fun _ => ?_
    exact reportMember_keeps (fun _ => rfl) (row_of_externalMember hfound)

theorem reportExceptions_keeps (method : MethodDefRow) :
    Keeps assembly.Told (assembly.reportExceptions method) := by
  refine Keeps.bind (noticing_keeps _) fun body => ?_
  cases body with
  | none => exact Keeps.pure ()
  | some body =>
    refine Keeps.bind (Keeps.forM fun constructor _ => reportThrow_keeps constructor) fun _ => ?_
    exact Keeps.forM fun type _ => reportCatch_keeps type

theorem fieldFact_api {opcode : Opcode} {fact : ApiKey → Fact} (h : opcode.fieldFact? = some fact)
    (key : ApiKey) : (fact key).api? = some key := by
  unfold Opcode.fieldFact? at h
  split at h
  · rw [← Option.some.inj h]
    rfl
  · split at h
    · rw [← Option.some.inj h]
      rfl
    · exact absurd h (by simp)

theorem reportAccess_keeps (instruction : Instruction) :
    Keeps assembly.Told (assembly.reportAccess instruction) := by
  unfold reportAccess
  split
  · exact Keeps.pure ()
  · refine Keeps.bind_liftM fun found hfound => ?_
    cases found with
    | none => exact Keeps.pure ()
    | some member =>
      refine Keeps.bind_liftM fun isField _ => Keeps.ite (fun _ => ?_) fun _ => Keeps.pure ()
      split
      · rename_i fact hfact
        exact reportMember_keeps (fieldFact_api hfact) (row_of_externalMember hfound)
      · exact Keeps.pure ()

theorem reportAccesses_keeps (method : MethodDefRow) :
    Keeps assembly.Told (assembly.reportAccesses method) :=
  Keeps.bind (noticing_keeps _) fun _ => Keeps.forM fun instruction _ =>
    reportAccess_keeps instruction

theorem reportImplementation_keeps (row : MethodImplRow) :
    Keeps assembly.Told (assembly.reportImplementation row) := by
  refine Keeps.ite (fun _ => ?_) fun _ => Keeps.pure ()
  exact Keeps.bind_liftM fun member hrow => reportMember_keeps (fun _ => rfl) hrow

section
variable (framework : Option TargetFramework)

theorem defaultImplementations_keeps :
    Keeps assembly.Told (Collector.defaultImplementations.collect assembly framework) := by
  dsimp only [Collector.defaultImplementations]
  refine eachDefinition_keeps fun type => Keeps.ite (fun _ => ?_) fun _ => Keeps.pure ()
  exact Keeps.bind_liftM fun _ _ => Keeps.forM fun row _ => reportImplementation_keeps row

theorem bases_keeps : Keeps assembly.Told (Collector.bases.collect assembly framework) := by
  dsimp only [Collector.bases]
  refine eachDefinition_keeps fun type => (reportBase_keeps type.base).bind fun _ => ?_
  exact Keeps.bind_liftM fun _ _ => Keeps.forM fun row _ => reportBase_keeps row.interface

theorem framework_keeps :
    Keeps assembly.Told (Collector.framework.collect assembly framework) := by
  cases framework with
  | none =>
    refine Keeps.bind_liftM fun found _ => ?_
    cases found with
    | none => exact Keeps.pure ()
    | some inferred => exact reportPlain_keeps rfl
  | some known => exact reportPlain_keeps rfl

theorem nullability_keeps :
    Keeps assembly.Told (Collector.nullability.collect assembly framework) := by
  refine Keeps.bind_liftM fun referenced _ => Keeps.ite (fun _ => ?_) fun _ => Keeps.ite
    (fun _ => Keeps.pure ()) fun _ => reportIfAny_keeps rfl _ _
  exact reportPlain_keeps rfl

/-- No collector reports anything but referenced types and members. -/
theorem collect_keeps {collector : Collector} (h : collector ∈ Collector.all) :
    Keeps assembly.Told (collector.collect assembly framework) := by
  simp only [Collector.all, List.mem_cons, List.not_mem_nil, or_false] at h
  rcases h with rfl | rfl | rfl | rfl | rfl | rfl | rfl | rfl | rfl | rfl
  · exact defaultImplementations_keeps framework
  · exact reportIfAny_keeps rfl _ _
  · exact reportIfAny_keeps rfl _ _
  · exact reportIfAny_keeps rfl _ _
  · exact reportIfAny_keeps rfl _ _
  · exact bases_keeps framework
  -- Left to unification, `eachMethod` would be unfolded before the collector is.
  · dsimp only [Collector.exceptions]
    exact eachMethod_keeps reportExceptions_keeps
  · dsimp only [Collector.fieldAccess]
    exact eachMethod_keeps reportAccesses_keeps
  · exact framework_keeps framework
  · exact nullability_keeps framework

/-! ## Results -/

theorem told_run {collector : Collector} (h : collector ∈ Collector.all)
    {result : CollectorResult} {fault : Option Fault} {before after : Diagnostics}
    (hrun : collector.run assembly framework before = ((result, fault), after)) :
    assembly.Told (after, result.facts) := by
  have hkept : assembly.Told (collector.collect assembly framework (before, ∅)).2 :=
    collect_keeps framework h (before, ∅) (told_empty before)
  rw [Collector.run] at hrun
  split at hrun
  all_goals
    rename_i hcollect
    rw [hcollect] at hkept
    cases hrun
    exact hkept

/-- Collectors behind one that fails have found nothing, so they do no harm. -/
theorem told_runAll {collectors : List Collector} (h : ∀ c ∈ collectors, c ∈ Collector.all)
    (before : Diagnostics) :
    ∀ result ∈ (Collector.runAll assembly framework collectors before).1.1,
      assembly.Told (before, result.facts) := by
  induction collectors generalizing before with
  | nil => exact fun _ hr => absurd hr List.not_mem_nil
  | cons collector rest ih =>
    rcases hrun : collector.run assembly framework before with ⟨⟨first, fault⟩, after⟩
    have hfirst := told_run framework (h collector (by simp)) hrun
    intro result hr
    cases fault with
    | some fault =>
      rw [Collector.runAll_failed hrun] at hr
      rcases List.mem_cons.1 hr with rfl | hr
      · exact hfirst
      · obtain ⟨other, -, rfl⟩ := List.mem_map.1 hr
        exact told_empty before
    | none =>
      rw [Collector.runAll_ended hrun] at hr
      rcases List.mem_cons.1 hr with rfl | hr
      · exact hfirst
      · exact ih (fun c hc => h c (by simp [hc])) after result hr

end

/-- **Every API that a collector reports a fact about is among the keys of a crawl that ends
    well, whatever framework is known and whether or not a collector fails.** -/
theorem facts_crawled {lookup : EnumLookup σ} {limit : Nat} {start state : σ} {keys : KeySet}
    (hcrawl : assembly.crawl lookup limit start = (.ok keys, state))
    (framework : Option TargetFramework) (diagnostics : Diagnostics) :
    ∀ result ∈ (Collector.runAll assembly framework Collector.all diagnostics).1.1,
      ∀ fact ∈ result.facts, ∀ key, fact.api? = some key → key ∈ keys := by
  intro result hresult fact hfact key hkey
  have htold := told_runAll framework (fun _ hc => hc) diagnostics result hresult
  exact crawlAll_brings (htold fact hfact key hkey) (crawlAll_of_crawl hcrawl)

/-! ## An example -/

/-- A referenced type with a method, and an interface that implements the method. -/
def implementingRows : TableId → List (List UInt8)
  | .typeRef => [[6, 0, 1, 0, 3, 0]]
  | .typeDef => [[0x20, 0, 0, 0, 1, 0, 0, 0, 0, 0, 1, 0, 1, 0]]
  | .memberRef => [[9, 0, 5, 0, 1, 0]]
  | .methodImpl => [[1, 0, 0, 0, 3, 0]]
  | _ => []

/-- An assembly with an interface that implements a method of another assembly. -/
def implementing : Assembly :=
  .ofRows implementingRows [0, 65, 0, 78, 0, 70, 0] [0, 3, 0x20, 0, 1]
    { methodImpls := RowIndex.group [(1, 1)] }

theorem attributesOf_implementing (parent : Token) : implementing.attributesOf parent = .ok [] := by
  show implementing.rowsOf _ (RowIndex.get {} parent) = _
  rw [RowIndex.get_empty]
  rfl

theorem nestedTypes_implementing (type : Nat) : implementing.nestedTypes type = [] :=
  RowIndex.get_empty type

theorem propertiesOf_implementing (type : TypeDefRow) :
    implementing.propertiesOf type = .ok [] := by
  simp [propertiesOf, implementing, ofRows]

theorem eventsOf_implementing (type : TypeDefRow) : implementing.eventsOf type = .ok [] := by
  simp [eventsOf, implementing, ofRows]

theorem crawl_implementing :
    ∃ keys, implementing.crawl (EnumLookup.none (σ := Unit)) 0 () = (.ok keys, ()) := by
  have hok : (implementing.crawl (EnumLookup.none (σ := Unit)) 0 ()).1.isOk = true := by
    simp only [crawl, crawlAll, crawlAttributes, crawlType, crawlTypeBy, isEmbedded,
      attributesOf_implementing, propertiesOf_implementing, eventsOf_implementing,
      nestedTypes_implementing]
    decide +kernel
  obtain ⟨keys, hkeys⟩ := exists_ok_of_isOk hok
  exact ⟨keys, Prod.ext hkeys rfl⟩

theorem methodImplsOf_implementing :
    implementing.methodImplsOf 1 = .ok [⟨1, 1, ⟨.methodDef, 0⟩, ⟨.memberRef, 1⟩⟩] := by
  show implementing.rowsOf _ ((RowIndex.group [(1, 1)]).get 1) = _
  rw [RowIndex.get_group]
  rfl

theorem collect_implementing (framework : Option TargetFramework) (place : Diagnostics × FactSet) :
    Collector.defaultImplementations.collect implementing framework place =
      (.ok (), (place.1, place.2.insert (.implementsByDefault ⟨"M:N.A.F"⟩))) := by
  have hdefinitions : implementing.definitions =
      [.ok ⟨1, 0x20, 1, 0, ⟨.typeDef, 0⟩, 1, 1⟩] := rfl
  have hrow : implementing.row MemberRefRow 1 = .ok ⟨1, ⟨.typeRef, 1⟩, 5, 1⟩ := rfl
  have hid : implementing.memberRefId ⟨1, ⟨.typeRef, 1⟩, 5, 1⟩ = .ok (some "M:N.A.F") :=
    eq_ok_of_toOption (by decide +kernel)
  have hreport : implementing.reportImplementation ⟨1, 1, ⟨.methodDef, 0⟩, ⟨.memberRef, 1⟩⟩ place =
      (.ok (), (place.1, place.2.insert (.implementsByDefault ⟨"M:N.A.F"⟩))) := by
    rw [reportImplementation, if_pos rfl, hrow, bind_liftM_ok, hid, bind_liftM_ok]
    rfl
  dsimp only [Collector.defaultImplementations]
  rw [eachDefinition, hdefinitions]
  refine bind_apply_ok (a := ()) ?_
  show (do (← implementing.methodImplsOf 1).forM implementing.reportImplementation :
    Collecting Unit) place = _
  rw [methodImplsOf_implementing, bind_liftM_ok]
  exact bind_apply_ok hreport

theorem runAll_implementing :
    ∃ result ∈ (Collector.runAll implementing none Collector.all {}).1.1,
      .implementsByDefault ⟨"M:N.A.F"⟩ ∈ result.facts := by
  have hrun : Collector.defaultImplementations.run implementing none {} =
      (({ Collector.defaultImplementations.emptyResult with
          facts := (∅ : FactSet).insert (.implementsByDefault ⟨"M:N.A.F"⟩) }, none), {}) := by
    rw [Collector.run, collect_implementing]
  rw [Collector.all, Collector.runAll_ended hrun]
  exact ⟨_, List.mem_cons_self, Std.HashSet.mem_insert_self⟩

theorem facts_crawled_implementing :
    ∃ keys, implementing.crawl (EnumLookup.none (σ := Unit)) 0 () = (.ok keys, ()) ∧
      ∃ result ∈ (Collector.runAll implementing none Collector.all {}).1.1,
        .implementsByDefault ⟨"M:N.A.F"⟩ ∈ result.facts ∧ ⟨"M:N.A.F"⟩ ∈ keys := by
  obtain ⟨keys, hcrawl⟩ := crawl_implementing
  obtain ⟨result, hresult, hfact⟩ := runAll_implementing
  exact ⟨keys, hcrawl, result, hresult, hfact,
    facts_crawled hcrawl none {} result hresult _ hfact _ rfl⟩

end Assembly

end ApiCensus
