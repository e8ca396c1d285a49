/-
  How the visits of a crawl call each other.

  * `Visits`: a meaning for each kind of visit, and `Assembly.visitsThrough`: the visits of a crawl
    where they call each other by given ones. Nothing bounds how deep the calls go but what the
    visits themselves check.
  * `Call.Below`: a call has fewer levels left, or as many and fewer bytes of a signature.
  * `Assembly.visitsThrough_agree`: what a visit does depends only on calls below it.
  * `Assembly.iterate_visitsThrough_agree`, `Assembly.crawlThrough_iterate`: so it does not matter
    what is called beyond a depth that the levels and the bytes determine.
-/
import ApiCensus.Proofs.Api.Tracking
import Mathlib.Logic.Function.Iterate

namespace ApiCensus

open Attempt Signature Signature.Decoding

variable {σ τ α β : Type}

/-! ## Calls -/

/-- What is done at each visit of a crawl, given the levels that are left. -/
structure Visits (σ : Type) where
  /-- Records what a token points at. -/
  entity : Nat → Option Token → Crawling σ Unit
  /-- Reads a type inside a signature, given how deep types may still nest. -/
  element : Nat → Nat → Decoding (σ × KeySet) (Option Token)
  /-- Records what a type of the assembly mentions. -/
  type : Nat → TypeDefRow → Crawling σ Unit

namespace Assembly

section
variable (assembly : Assembly) (lookup : EnumLookup σ) (limit : Nat) (calls : Visits σ)

/-- The type of a field signature, given how a type is read. -/
def fieldTypeOf (type : Decoding σ α) : Decoding σ α := do
  let header ← read header
  if header.kind = .field then type
  else Attempt.malformed (.fieldHeader header)

/-- A type specification, given the levels left for what it mentions. -/
def visitTypeSpec (levels rid : Nat) : Crawling σ Unit := do
  let type ← assembly.row TypeSpecRow rid
  assembly.crawlAttributes lookup type.token
  let blob ← assembly.blob type.signature
  let leaf ← (calls.element levels maxDepth).onBytes blob
  if leaf.any (·.isIn .typeSpec) then pure () else calls.entity levels leaf

/-- What a token points at. -/
def visitEntity : Nat → Option Token → Crawling σ Unit
  | 0, _ => throw (.tooDeep limit)
  | levels + 1, entity =>
    match entity.filter fun token => !token.isNil with
    | none => pure ()
    | some token =>
      match token.table? with
      | some .typeRef => assembly.recordTypeRef token.row
      | some .memberRef => do
        let member ← assembly.row MemberRefRow token.row
        assembly.recordMemberRef member
      | some .typeSpec => assembly.visitTypeSpec lookup calls levels token.row
      | _ => pure ()

/-- A type inside a signature. -/
def visitElement (levels : Nat) : Nat → Decoding (σ × KeySet) (Option Token)
  | 0 => throw (.tooDeep maxDepth)
  | nesting + 1 => do
    let code ← read Cursor.byte
    match Element.ofCode? code with
    | none => Attempt.malformed (.elementType code)
    | some element =>
      typeFrom (assembly.walker (calls.entity levels)) (calls.element levels nesting) element

/-- A field. -/
def visitField (field : FieldRow) : Nat → Crawling σ Unit :=
  deeper limit fun levels => do
    assembly.crawlAttributes lookup field.token
    let blob ← assembly.blob field.signature
    let _ ← (fieldTypeOf (calls.element levels maxDepth)).onBytes blob

/-- A property. -/
def visitProperty (property : PropertyRow) : Nat → Crawling σ Unit :=
  deeper limit fun levels => do
    assembly.crawlAttributes lookup property.token
    let blob ← assembly.blob property.signature
    let _ ← (methodOf (calls.element levels maxDepth)).onBytes blob
    let accessors ← assembly.propertyAccessors property
    accessors.all.forM (assembly.crawlMethod lookup)

/-- An event. -/
def visitEvent (event : EventRow) : Nat → Crawling σ Unit :=
  deeper limit fun levels => do
    assembly.crawlAttributes lookup event.token
    calls.entity levels (some event.eventType.token)
    let accessors ← assembly.eventAccessors event
    ({ accessors with raiser := none }).all.forM (assembly.crawlMethod lookup)

/-- A type and its members. A type inside it takes a level. -/
def visitType (levels : Nat) (type : TypeDefRow) : Crawling σ Unit := do
  if ← assembly.isEmbedded type then
    pure ()
  else
    assembly.crawlAttributes lookup type.token
    (← assembly.fieldsOf type).forM fun field => assembly.visitField lookup limit calls field levels
    (← assembly.methodsOf type).forM fun method => assembly.crawlAttributes lookup method.token
    (← assembly.propertiesOf type).forM fun property =>
      assembly.visitProperty lookup limit calls property levels
    (← assembly.eventsOf type).forM fun event => assembly.visitEvent lookup limit calls event levels
    (assembly.nestedTypes type.rid).forM fun rid =>
      deeper limit (fun levels => do
        let inner ← assembly.row TypeDefRow rid
        calls.type levels inner) levels

/-- The visits of a crawl, where they call each other by `calls`. -/
def visitsThrough : Visits σ where
  entity := assembly.visitEntity lookup limit calls
  element := assembly.visitElement calls
  type := assembly.visitType lookup limit calls

/-- The visits of a crawl. -/
def visits : Visits σ where
  entity := assembly.recordEntity lookup limit
  element levels :=
    Signature.typeWithin (assembly.walker (assembly.recordEntity lookup limit levels))
  type := assembly.crawlType lookup limit

/-- Records everything that the assembly mentions. -/
def crawlAllThrough : Crawling σ Unit := do
  assembly.crawlAttributes lookup self
  (assembly.table MemberRefRow).rows.forM fun row => do
    assembly.recordMemberRef (← row)
  (assembly.table TypeRefRow).rows.forM fun row => do
    assembly.recordTypeRef (← row).rid
  (assembly.table TypeDefRow).rows.forM fun row => do
    calls.type (limit + 1) (← row)

/-- The keys of everything that the assembly refers to. -/
def crawlThrough : Attempt σ KeySet := fun state =>
  match assembly.crawlAllThrough lookup limit calls (state, {}) with
  | (.ok (), (state, keys)) => (.ok keys, state)
  | (.error fault, (state, _)) => (.error fault, state)

/-- The visits of a crawl call each other. -/
theorem visitsThrough_visits :
    assembly.visitsThrough lookup limit (assembly.visits lookup limit) =
      assembly.visits lookup limit := by
  unfold visitsThrough visits
  congr 1
  · funext levels entity
    cases levels with
    | zero => rfl
    | succ levels => rfl
  · funext levels nesting
    cases nesting with
    | zero => rfl
    | succ nesting => rfl
  · funext levels type
    cases levels with
    | zero => rfl
    | succ levels => rfl

theorem crawlThrough_visits :
    assembly.crawlThrough lookup limit (assembly.visits lookup limit) =
      assembly.crawl lookup limit := rfl

end

end Assembly

/-! ## What a call has left -/

/-- A call of a visit with the levels that are left. A type inside a signature also has a number of
    bytes left to read. -/
inductive Call where
  | entity (levels : Nat)
  | element (levels unread : Nat)
  | type (levels : Nat)

/-- The levels and the bytes of a call. What is recorded while a type is read has as many levels
    left, so it counts as if it had fewer than no bytes. -/
def Call.budget : Call → Nat × Nat
  | .entity levels => (levels, 0)
  | .element levels unread => (levels, unread + 1)
  | .type levels => (levels, 0)

/-- A call has fewer levels left, or as many and fewer bytes. -/
def Call.Below (call other : Call) : Prop :=
  Prod.Lex (· < ·) (· < ·) call.budget other.budget

theorem Call.wellFounded_below : WellFounded Call.Below :=
  InvImage.wf Call.budget (Prod.lex Nat.lt_wfRel Nat.lt_wfRel).wf

/-- The budget of a call as one number, where no signature is longer than `bound`. -/
def Call.rank (bound : Nat) (call : Call) : Nat :=
  call.budget.1 * (bound + 2) + call.budget.2

theorem Call.rank_lt_of_below {bound : Nat} {call other : Call} (h : call.Below other)
    (hc : call.budget.2 ≤ bound + 1) : call.rank bound < other.rank bound := by
  simp only [rank]
  rcases Prod.lex_def.1 h with hlevels | ⟨hlevels, hunread⟩
  · have hmul := Nat.mul_le_mul_right (bound + 2) (Nat.succ_le_of_lt hlevels)
    rw [Nat.succ_mul] at hmul
    omega
  · rw [hlevels]
    omega

/-- For a call the visits do the same. Where they read, they leave at most as many bytes unread as
    there were. -/
def Visits.AgreeAt (first second : Visits σ) : Call → Prop
  | .entity levels => ∀ entity, Attempt.Tracks .nothing Eq (first.entity levels entity)
      (second.entity levels entity)
  | .element levels unread => ∀ nesting,
      Decoding.Tracks .nothing unread Eq (first.element levels nesting)
        (second.element levels nesting)
  | .type levels => ∀ type, Attempt.Tracks .nothing Eq (first.type levels type)
      (second.type levels type)

namespace Assembly

theorem fieldTypeOf_tracks {given : Given} {unread : Nat} {R : σ → τ → Prop} {type : Decoding σ α}
    {type' : Decoding τ α} (h : Decoding.Tracks given unread R type type') :
    Decoding.Tracks given unread R (fieldTypeOf type) (fieldTypeOf type') := by
  refine (read_tracks readsOn_header).bind fun header => ?_
  exact Tracks.ite (fun _ => h) fun _ => Tracks.throw _

section
variable {assembly : Assembly} {lookup : EnumLookup σ} {limit levels : Nat}
  {first second : Visits σ}

/-- The visits do the same wherever fewer levels are left and no signature is longer than the
    heap. -/
structure AgreeBelow (assembly : Assembly) (first second : Visits σ) (levels : Nat) : Prop where
  entity : ∀ left < levels, first.AgreeAt second (.entity left)
  element : ∀ left < levels, first.AgreeAt second (.element left assembly.blobs.size)
  type : ∀ left < levels, first.AgreeAt second (.type left)

theorem visitTypeSpec_tracks (h : assembly.AgreeBelow first second (levels + 1)) (rid : Nat) :
    Tracks .nothing Eq (assembly.visitTypeSpec lookup first levels rid)
      (assembly.visitTypeSpec lookup second levels rid) := by
  refine Tracks.bind_liftM fun type _ => (Tracks.refl _).bind fun _ => ?_
  refine Tracks.bind_liftM fun blob hblob => ?_
  have hread := h.element levels (by omega) maxDepth
  refine (onBytes_tracks hread (Heap.size_blob_le hblob)).bind fun leaf => ?_
  exact Tracks.ite (fun _ => Tracks.pure ()) fun _ => h.entity levels (by omega) leaf

theorem visitEntity_tracks (h : assembly.AgreeBelow first second levels) (entity : Option Token) :
    Tracks .nothing Eq (assembly.visitEntity lookup limit first levels entity)
      (assembly.visitEntity lookup limit second levels entity) := by
  cases levels with
  | zero => exact Tracks.throw _
  | succ levels =>
    simp only [visitEntity]
    split
    · exact Tracks.pure ()
    · split
      · exact Tracks.refl _
      · exact Tracks.refl _
      · exact visitTypeSpec_tracks h _
      · exact Tracks.pure ()

theorem visitField_tracks (h : assembly.AgreeBelow first second levels) (field : FieldRow) :
    Tracks .nothing Eq (assembly.visitField lookup limit first field levels)
      (assembly.visitField lookup limit second field levels) := by
  cases levels with
  | zero => exact Tracks.throw _
  | succ levels =>
    refine (Tracks.refl _).bind fun _ => Tracks.bind_liftM fun blob hblob => ?_
    have hread := fieldTypeOf_tracks (h.element levels (by omega) maxDepth)
    exact (onBytes_tracks hread (Heap.size_blob_le hblob)).bind fun _ => Tracks.pure ()

theorem visitProperty_tracks (h : assembly.AgreeBelow first second levels)
    (property : PropertyRow) :
    Tracks .nothing Eq (assembly.visitProperty lookup limit first property levels)
      (assembly.visitProperty lookup limit second property levels) := by
  cases levels with
  | zero => exact Tracks.throw _
  | succ levels =>
    refine (Tracks.refl _).bind fun _ => Tracks.bind_liftM fun blob hblob => ?_
    have hread := methodOf_tracks (h.element levels (by omega) maxDepth)
    exact (onBytes_tracks hread (Heap.size_blob_le hblob)).bind fun _ => Tracks.refl _

theorem visitEvent_tracks (h : assembly.AgreeBelow first second levels) (event : EventRow) :
    Tracks .nothing Eq (assembly.visitEvent lookup limit first event levels)
      (assembly.visitEvent lookup limit second event levels) := by
  cases levels with
  | zero => exact Tracks.throw _
  | succ levels =>
    refine (Tracks.refl _).bind fun _ => ?_
    exact (h.entity levels (by omega) _).bind fun _ => Tracks.refl _

theorem visitType_tracks (h : assembly.AgreeBelow first second levels) (type : TypeDefRow) :
    Tracks .nothing Eq (assembly.visitType lookup limit first levels type)
      (assembly.visitType lookup limit second levels type) := by
  refine Tracks.bind_liftM fun embedded _ => Tracks.ite (fun _ => Tracks.pure ()) fun _ => ?_
  refine (Tracks.refl _).bind fun _ => Tracks.bind_liftM fun fields _ => ?_
  refine (Tracks.forM fun field _ => visitField_tracks h field).bind fun _ => ?_
  refine Tracks.bind_liftM fun methods _ => (Tracks.refl _).bind fun _ => ?_
  refine Tracks.bind_liftM fun properties _ => ?_
  refine (Tracks.forM fun property _ => visitProperty_tracks h property).bind fun _ => ?_
  refine Tracks.bind_liftM fun events _ => ?_
  refine (Tracks.forM fun event _ => visitEvent_tracks h event).bind fun _ => ?_
  refine Tracks.forM fun rid _ => ?_
  cases levels with
  | zero => exact Tracks.throw _
  | succ levels => exact Tracks.bind_liftM fun inner _ => h.type levels (by omega) inner

theorem visitElement_tracks {unread : Nat} (he : first.AgreeAt second (.entity levels))
    (hi : ∀ fewer < unread, first.AgreeAt second (.element levels fewer)) (nesting : Nat) :
    Decoding.Tracks .nothing unread Eq (assembly.visitElement first levels nesting)
      (assembly.visitElement second levels nesting) := by
  cases nesting with
  | zero => exact Tracks.throw _
  | succ nesting =>
    refine byte_bind_tracks fun fewer hfewer code => ?_
    split
    · exact Tracks.throw _
    · exact typeFrom_tracks (walker_tracks insertsAlike_eq he) (hi fewer hfewer nesting) _

/-- **What a visit does depends on the visits that it calls only where they have less left than it
    has itself.** They read signatures that were already being read, or that are in the heap. -/
theorem visitsThrough_agree {bound : Nat} {call : Call} (hbound : assembly.blobs.size ≤ bound)
    (hcall : call.budget.2 ≤ bound + 1)
    (h : ∀ smaller, smaller.Below call → smaller.budget.2 ≤ bound + 1 →
      first.AgreeAt second smaller) :
    (assembly.visitsThrough lookup limit first).AgreeAt
      (assembly.visitsThrough lookup limit second) call := by
  have hbelow : assembly.AgreeBelow first second call.budget.1 :=
    { entity := fun left hl => h _ (.left _ _ hl) (Nat.zero_le _)
      element := fun left hl => h _ (.left _ _ hl) (Nat.succ_le_succ hbound)
      type := fun left hl => h _ (.left _ _ hl) (Nat.zero_le _) }
  cases call with
  | entity levels => exact visitEntity_tracks hbelow
  | element levels unread =>
    have hunread : unread + 1 ≤ bound + 1 := hcall
    refine visitElement_tracks (h _ (.right _ (Nat.succ_pos unread)) (Nat.zero_le _)) ?_
    intro fewer hfewer
    exact h _ (.right _ (Nat.succ_lt_succ hfewer)) (by simp only [Call.budget]; omega)
  | type levels => exact visitType_tracks hbelow

end

/-! ## How deep the calls go -/

section
variable (assembly : Assembly) (lookup : EnumLookup σ) (limit : Nat)

/-- What is called at a depth that the budget does not reach makes no difference. -/
theorem iterate_visitsThrough_agree (calls : Visits σ) {n : Nat} {call : Call}
    (hn : call.rank assembly.blobs.size < n) (hcall : call.budget.2 ≤ assembly.blobs.size + 1) :
    ((assembly.visitsThrough lookup limit)^[n] calls).AgreeAt (assembly.visits lookup limit)
      call := by
  -- Every call that is unfolded ranks below the one before, so `n` falls no faster than the rank.
  induction n generalizing call with
  | zero => exact absurd hn (Nat.not_lt_zero _)
  | succ n ih =>
    rw [Function.iterate_succ_apply', ← visitsThrough_visits]
    refine visitsThrough_agree (Nat.le_refl _) hcall fun smaller hbelow hsmaller => ?_
    have hrank := Call.rank_lt_of_below hbelow hsmaller
    exact ih (by omega) hsmaller

theorem crawlThrough_eq {first second : Visits σ}
    (h : first.AgreeAt second (.type (limit + 1))) :
    assembly.crawlThrough lookup limit first = assembly.crawlThrough lookup limit second := by
  have hall : Tracks .nothing Eq (assembly.crawlAllThrough lookup limit first)
      (assembly.crawlAllThrough lookup limit second) := by
    refine (Tracks.refl _).bind fun _ => (Tracks.refl _).bind fun _ => (Tracks.refl _).bind ?_
    exact fun _ => Tracks.forM fun row _ => Tracks.bind_liftM fun type _ => h type
  unfold crawlThrough
  rw [hall.eq]

/-- A crawl never calls deeper than the levels and the bytes of signatures allow. -/
theorem crawlThrough_iterate (calls : Visits σ) {n : Nat}
    (hn : (limit + 1) * (assembly.blobs.size + 2) < n) :
    assembly.crawlThrough lookup limit ((assembly.visitsThrough lookup limit)^[n] calls) =
      assembly.crawl lookup limit := by
  have hagree : ((assembly.visitsThrough lookup limit)^[n] calls).AgreeAt
      (assembly.visits lookup limit) (.type (limit + 1)) :=
    iterate_visitsThrough_agree assembly lookup limit calls hn (Nat.zero_le _)
  rw [← crawlThrough_visits]
  exact crawlThrough_eq assembly lookup limit hagree

end

end Assembly

end ApiCensus
