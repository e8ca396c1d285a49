/-
  Two crawls of one assembly, side by side.

  * `Assembly.CrawlsAlike`: recording a key and looking at an attribute end alike in both crawls.
  * `Assembly.crawlAll_tracks`: then the crawls end alike, also where the second one has more
    levels.
  * `Assembly.crawl_limit_mono`: a crawl that ends well does so under every larger limit, with the
    same keys.
-/
import ApiCensus.Proofs.Api.Crawl
import ApiCensus.Proofs.Signature.Tracking

namespace ApiCensus

open Attempt Signature

variable {σ τ : Type}

namespace Assembly

/-- One more key in both crawls does no harm. -/
def InsertsAlike (R : σ × KeySet → τ × KeySet → Prop) : Prop :=
  ∀ key s t, R s t → R (s.1, s.2.insert key) (t.1, t.2.insert key)

/-- Recording a key and looking at an attribute end alike in both crawls. -/
structure CrawlsAlike (assembly : Assembly) (given : Given) (R : σ × KeySet → τ × KeySet → Prop)
    (lookup : EnumLookup σ) (more : EnumLookup τ) : Prop where
  inserts : InsertsAlike R
  attributes : ∀ row,
    Tracks given R (assembly.crawlAttribute lookup row) (assembly.crawlAttribute more row)

section
variable {assembly : Assembly} {given : Given} {R : σ × KeySet → τ × KeySet → Prop}
  {lookup : EnumLookup σ} {more : EnumLookup τ}

/-! ## Recording -/

theorem record_tracks (h : InsertsAlike R) (id : String) :
    Tracks given R (record id : Crawling σ Unit) (record id : Crawling τ Unit) :=
  Tracks.ite (fun _ => Tracks.pure ()) fun _ s t hR => .same (h ⟨id⟩ s t hR)

theorem recordSome_tracks (h : InsertsAlike R) (id : Option String) :
    Tracks given R (recordSome id : Crawling σ Unit) (recordSome id : Crawling τ Unit) := by
  cases id with
  | none => exact Tracks.pure ()
  | some id => exact record_tracks h id

theorem recordTypeRef_tracks (h : InsertsAlike R) (rid : Nat) :
    Tracks given R (assembly.recordTypeRef rid : Crawling σ Unit)
      (assembly.recordTypeRef rid : Crawling τ Unit) :=
  Tracks.bind_liftM fun _ _ => Tracks.bind_liftM fun id _ => recordSome_tracks h id

theorem recordMemberRef_tracks (h : InsertsAlike R) (member : MemberRefRow) :
    Tracks given R (assembly.recordMemberRef member : Crawling σ Unit)
      (assembly.recordMemberRef member : Crawling τ Unit) :=
  Tracks.ite (fun _ => Tracks.pure ()) fun _ =>
    Tracks.bind_liftM fun id _ => recordSome_tracks h id

theorem recordArgument_tracks (h : InsertsAlike R) (type : Nat) (argument : NamedArgument) :
    Tracks given R (assembly.recordArgument type argument : Crawling σ Unit)
      (assembly.recordArgument type argument : Crawling τ Unit) := by
  refine Tracks.bind_liftM fun row _ => Tracks.bind_liftM fun parent _ => ?_
  split
  · exact record_tracks h _
  · exact Tracks.pure ()

theorem crawlAttributes_tracks (h : assembly.CrawlsAlike given R lookup more) (parent : Token) :
    Tracks given R (assembly.crawlAttributes lookup parent)
      (assembly.crawlAttributes more parent) :=
  Tracks.bind_liftM fun _ _ => Tracks.forM fun row _ => h.attributes row

/-! ## Signatures -/

section
variable {recordToken : Option Token → Crawling σ Unit}
  {recordToken' : Option Token → Crawling τ Unit}

theorem walker_tracks (h : InsertsAlike R)
    (hr : ∀ token, Tracks given R (recordToken token) (recordToken' token)) :
    (assembly.walker recordToken).Tracks given R (assembly.walker recordToken') := by
  have hpass : ∀ element, Tracks given R (recordToken element >>= fun _ => pure element)
      (recordToken' element >>= fun _ => pure element) :=
    fun element => (hr element).bind fun _ => Tracks.pure element
  exact
    { primitive := fun type =>
        (record_tracks h ("T:System." ++ type.name)).bind fun _ => Tracks.pure none
      definition := fun token _ => Tracks.pure (some token)
      reference := fun token _ =>
        (recordTypeRef_tracks h token.row).bind fun _ => Tracks.pure (some token)
      specification := fun token _ => Tracks.pure (some token)
      vector := hpass
      array := fun element _ => hpass element
      byReference := hpass
      pointer := hpass
      pinned := hpass
      instantiation := fun generic arguments =>
        (hr generic).bind fun _ => (Tracks.forM fun argument _ => hr argument).bind fun _ =>
          Tracks.pure generic
      typeParameter := fun _ => Tracks.pure none
      methodParameter := fun _ => Tracks.pure none
      modified := fun _ unmodified _ => hpass unmodified
      functionPointer := fun signature =>
        (Tracks.forM fun parameter _ => hr parameter).bind fun _ => Tracks.pure none }

theorem crawlTypeSpec_tracks (h : assembly.CrawlsAlike given R lookup more)
    (hr : ∀ token, Tracks given R (recordToken token) (recordToken' token)) (rid : Nat) :
    Tracks given R (assembly.crawlTypeSpec lookup recordToken rid)
      (assembly.crawlTypeSpec more recordToken' rid) := by
  refine Tracks.bind_liftM fun type _ => (crawlAttributes_tracks h type.token).bind fun _ => ?_
  refine Tracks.bind_liftM fun blob _ => ?_
  have hwalker : (assembly.walker recordToken).Tracks given R (assembly.walker recordToken') :=
    walker_tracks h.inserts hr
  refine (onBytes_tracks (type_tracks hwalker) (Nat.le_refl _)).bind fun leaf => ?_
  exact Tracks.ite (fun _ => Tracks.pure ()) fun _ => hr leaf

end

/-! ## Visits -/

/-- How many levels two visits have left: the second one as many as the first, or more if it is
    known that the first one ends well. -/
def LevelsAlike (given : Given) (limit limit' levels levels' : Nat) : Prop :=
  (limit = limit' ∧ levels = levels') ∨ (given ≠ .nothing ∧ levels ≤ levels')

section
variable {limit limit' levels levels' : Nat}

theorem LevelsAlike.pred (hl : LevelsAlike given limit limit' (levels + 1) (levels' + 1)) :
    LevelsAlike given limit limit' levels levels' := by
  rcases hl with ⟨hlimit, hlevels⟩ | ⟨hg, hlevels⟩
  · exact Or.inl ⟨hlimit, by omega⟩
  · exact Or.inr ⟨hg, by omega⟩

/-- Without a level left the second visit has none either, or the first one is no measure. -/
theorem LevelsAlike.tooDeep_tracks {visit : Crawling τ Unit}
    (hl : LevelsAlike given limit limit' 0 levels')
    (hv : levels' = 0 → visit = throw (.tooDeep limit')) :
    Tracks given R (throw (.tooDeep limit) : Crawling σ Unit) visit := by
  rcases hl with ⟨rfl, hlevels⟩ | ⟨hg, -⟩
  · rw [hv hlevels.symm]
    exact Tracks.throw _
  · exact Tracks.of_throw hg _

theorem LevelsAlike.exists_succ (hl : LevelsAlike given limit limit' (levels + 1) levels') :
    ∃ left, levels' = left + 1 := by
  rcases hl with ⟨-, hlevels⟩ | ⟨-, hlevels⟩
  · exact ⟨levels, hlevels.symm⟩
  · exact ⟨levels' - 1, by omega⟩

theorem recordEntity_tracks (h : assembly.CrawlsAlike given R lookup more)
    (hl : LevelsAlike given limit limit' levels levels') (entity : Option Token) :
    Tracks given R (assembly.recordEntity lookup limit levels entity)
      (assembly.recordEntity more limit' levels' entity) := by
  induction levels generalizing levels' entity with
  | zero =>
    refine hl.tooDeep_tracks ?_
    rintro rfl
    rfl
  | succ levels ih =>
    obtain ⟨left, rfl⟩ := hl.exists_succ
    unfold recordEntity
    split
    · exact Tracks.pure ()
    · split
      · exact recordTypeRef_tracks h.inserts _
      · exact Tracks.bind_liftM fun member _ => recordMemberRef_tracks h.inserts member
      · exact crawlTypeSpec_tracks h (ih hl.pred) _
      · exact Tracks.pure ()

theorem entityWalker_tracks (h : assembly.CrawlsAlike given R lookup more)
    (hl : LevelsAlike given limit limit' levels levels') :
    (assembly.walker (assembly.recordEntity lookup limit levels)).Tracks given R
      (assembly.walker (assembly.recordEntity more limit' levels')) :=
  walker_tracks h.inserts (recordEntity_tracks h hl)

theorem deeper_tracks {visit : Nat → Crawling σ Unit} {visit' : Nat → Crawling τ Unit}
    (hl : LevelsAlike given limit limit' levels levels')
    (hv : ∀ left left', LevelsAlike given limit limit' left left' →
      Tracks given R (visit left) (visit' left')) :
    Tracks given R (deeper limit visit levels) (deeper limit' visit' levels') := by
  cases levels with
  | zero =>
    refine hl.tooDeep_tracks ?_
    rintro rfl
    rfl
  | succ levels =>
    obtain ⟨left, rfl⟩ := hl.exists_succ
    exact hv levels left hl.pred

theorem crawlField_tracks (h : assembly.CrawlsAlike given R lookup more)
    (hl : LevelsAlike given limit limit' levels levels') (field : FieldRow) :
    Tracks given R (assembly.crawlField lookup limit field levels)
      (assembly.crawlField more limit' field levels') := by
  refine deeper_tracks hl fun left left' hl => ?_
  refine (crawlAttributes_tracks h field.token).bind fun _ => Tracks.bind_liftM fun blob _ => ?_
  refine (onBytes_tracks (fieldType_tracks (entityWalker_tracks h hl)) (Nat.le_refl _)).bind ?_
  exact fun _ => Tracks.pure ()

theorem crawlProperty_tracks (h : assembly.CrawlsAlike given R lookup more)
    (hl : LevelsAlike given limit limit' levels levels') (property : PropertyRow) :
    Tracks given R (assembly.crawlProperty lookup limit property levels)
      (assembly.crawlProperty more limit' property levels') := by
  refine deeper_tracks hl fun left left' hl => ?_
  refine (crawlAttributes_tracks h property.token).bind fun _ => Tracks.bind_liftM fun blob _ => ?_
  have hwalker := entityWalker_tracks h hl
  refine (onBytes_tracks (method_tracks hwalker) (Nat.le_refl _)).bind fun _ => ?_
  refine Tracks.bind_liftM fun accessors _ => Tracks.forM fun method _ => ?_
  exact crawlAttributes_tracks h (Token.ofRow .methodDef method)

theorem crawlEvent_tracks (h : assembly.CrawlsAlike given R lookup more)
    (hl : LevelsAlike given limit limit' levels levels') (event : EventRow) :
    Tracks given R (assembly.crawlEvent lookup limit event levels)
      (assembly.crawlEvent more limit' event levels') := by
  refine deeper_tracks hl fun left left' hl => ?_
  refine (crawlAttributes_tracks h event.token).bind fun _ => ?_
  refine (recordEntity_tracks h hl _).bind fun _ => ?_
  refine Tracks.bind_liftM fun accessors _ => Tracks.forM fun method _ => ?_
  exact crawlAttributes_tracks h (Token.ofRow .methodDef method)

theorem crawlTypeBy_tracks (h : assembly.CrawlsAlike given R lookup more)
    {nested : Nat → Crawling σ Unit} {nested' : Nat → Crawling τ Unit}
    (hn : ∀ rid, Tracks given R (nested rid) (nested' rid))
    (hl : LevelsAlike given limit limit' levels levels') (type : TypeDefRow) :
    Tracks given R (assembly.crawlTypeBy lookup limit nested levels type)
      (assembly.crawlTypeBy more limit' nested' levels' type) := by
  refine Tracks.bind_liftM fun embedded _ => Tracks.ite (fun _ => Tracks.pure ()) fun _ => ?_
  refine (crawlAttributes_tracks h type.token).bind fun _ => Tracks.bind_liftM fun fields _ => ?_
  refine (Tracks.forM fun field _ => crawlField_tracks h hl field).bind fun _ => ?_
  refine Tracks.bind_liftM fun methods _ => ?_
  refine (Tracks.forM fun method _ => crawlAttributes_tracks h method.token).bind fun _ => ?_
  refine Tracks.bind_liftM fun properties _ => ?_
  refine (Tracks.forM fun property _ => crawlProperty_tracks h hl property).bind fun _ => ?_
  refine Tracks.bind_liftM fun events _ => ?_
  refine (Tracks.forM fun event _ => crawlEvent_tracks h hl event).bind fun _ => ?_
  exact Tracks.forM fun rid _ => hn rid

theorem crawlType_tracks (h : assembly.CrawlsAlike given R lookup more)
    (hl : LevelsAlike given limit limit' levels levels') (type : TypeDefRow) :
    Tracks given R (assembly.crawlType lookup limit levels type)
      (assembly.crawlType more limit' levels' type) := by
  induction levels generalizing levels' type with
  | zero =>
    cases levels' with
    | zero => exact crawlTypeBy_tracks h (fun _ => hl.tooDeep_tracks fun _ => rfl) hl type
    | succ left => exact crawlTypeBy_tracks h (fun _ => hl.tooDeep_tracks (by simp)) hl type
  | succ levels ih =>
    obtain ⟨left, rfl⟩ := hl.exists_succ
    refine crawlTypeBy_tracks h (fun rid => ?_) hl type
    exact Tracks.bind_liftM fun inner _ => ih hl.pred inner

/-! ## The whole assembly -/

theorem crawlAll_tracks (h : assembly.CrawlsAlike given R lookup more)
    (hl : LevelsAlike given limit limit' (limit + 1) (limit' + 1)) :
    Tracks given R (assembly.crawlAll lookup limit) (assembly.crawlAll more limit') := by
  refine (crawlAttributes_tracks h self).bind fun _ => ?_
  refine (Tracks.forM fun row _ => Tracks.bind_liftM fun member _ =>
    recordMemberRef_tracks h.inserts member).bind fun _ => ?_
  refine (Tracks.forM fun row _ => Tracks.bind_liftM fun type _ =>
    recordTypeRef_tracks h.inserts type.rid).bind fun _ => ?_
  exact Tracks.forM fun row _ => Tracks.bind_liftM fun type _ => crawlType_tracks h hl type

end

end

/-! ## A larger limit -/

variable {assembly : Assembly} {lookup : EnumLookup σ}

theorem insertsAlike_eq : InsertsAlike (σ := σ) Eq := by
  rintro key s _ rfl
  rfl

theorem crawlsAlike_self (given : Given) : assembly.CrawlsAlike given Eq lookup lookup where
  inserts := insertsAlike_eq
  attributes _ := Tracks.refl _

/-- **A crawl that ends well does so under every larger limit, with the same keys.** -/
theorem crawl_limit_mono {limit limit' : Nat} (hl : limit ≤ limit') {start state : σ}
    {keys : KeySet} (h : assembly.crawl lookup limit start = (.ok keys, state)) :
    assembly.crawl lookup limit' start = (.ok keys, state) := by
  have hrun := crawlAll_of_crawl h
  have hlevels : LevelsAlike .first limit limit' (limit + 1) (limit' + 1) :=
    Or.inr ⟨by simp, by omega⟩
  have halike : assembly.CrawlsAlike .first Eq lookup lookup := crawlsAlike_self .first
  have hends := crawlAll_tracks halike hlevels (start, {}) (start, {}) rfl
  rw [hrun] at hends
  generalize hrun' : assembly.crawlAll lookup limit' (start, {}) = outcome at hends
  cases hends with
  | same hstate =>
    subst hstate
    simp only [crawl, hrun']
  | secondFails hg => exact absurd hg (by simp)

/-! ## An example -/

/-- A type with a field. -/
def holdingRows : TableId → List (List UInt8)
  | .typeDef => [[0x20, 0, 0, 0, 1, 0, 0, 0, 0, 0, 1, 0, 1, 0]]
  | .field => [[6, 0, 1, 0, 1, 0]]
  | _ => []

/-- An assembly with a type that holds an array of strings. The field is a level, and what the
    array is made of is one more. -/
def holding : Assembly :=
  .ofRows holdingRows [0, 65, 0] [0, 3, 6, 0x1D, 0x0E] {}

theorem attributesOf_holding (parent : Token) : holding.attributesOf parent = .ok [] := by
  show holding.rowsOf _ (RowIndex.get {} parent) = _
  rw [RowIndex.get_empty]
  rfl

theorem nestedTypes_holding (type : Nat) : holding.nestedTypes type = [] :=
  RowIndex.get_empty type

theorem propertiesOf_holding (type : TypeDefRow) : holding.propertiesOf type = .ok [] := by
  simp [propertiesOf, holding, ofRows]

theorem eventsOf_holding (type : TypeDefRow) : holding.eventsOf type = .ok [] := by
  simp [eventsOf, holding, ofRows]

theorem isOk_crawl_holding :
    ((holding.crawl (EnumLookup.none (σ := Unit)) 0 ()).1.isOk = false) ∧
      ((holding.crawl (EnumLookup.none (σ := Unit)) 1 ()).1.isOk = true) := by
  simp only [crawl, crawlAll, crawlAttributes, crawlType, crawlTypeBy, crawlField, isEmbedded,
    attributesOf_holding, propertiesOf_holding, eventsOf_holding, nestedTypes_holding]
  decide +kernel

theorem crawl_limit_mono_holding :
    ∃ keys, (1 ≤ 100 ∧ holding.crawl (EnumLookup.none (σ := Unit)) 1 () = (.ok keys, ())) ∧
      holding.crawl (EnumLookup.none (σ := Unit)) 100 () = (.ok keys, ()) := by
  obtain ⟨keys, hkeys⟩ := exists_ok_of_isOk isOk_crawl_holding.2
  have hcrawl : holding.crawl (EnumLookup.none (σ := Unit)) 1 () = (.ok keys, ()) :=
    Prod.ext hkeys rfl
  exact ⟨keys, ⟨by decide, hcrawl⟩, crawl_limit_mono (by decide) hcrawl⟩

end Assembly

end ApiCensus
