/-
  A handle in a signature, and what may stand in its place.

  * `Signature.typeStarts`, `methodStarts`: the places where types begin.
  * `SignatureType.Congruence`: a relation of trees that holds of types when it holds of their
    parts.
  * `Decoding.Splices`: where one reading ends well, another one reads the same bytes, and also
    those with other bytes at a place where a type begins; the answers are related.
  * `Signature.splices_startsWithin`: so it is with a type, if it is with the type at that place.
  * `Signature.reads_of_typeWithin`: a type is read again wherever its bytes stand, also where
    types may nest deeper; `exists_front`: what its bytes begin with.
-/
import ApiCensus.Proofs.Bytes.Rereading
import ApiCensus.Proofs.Signature.Leading
import ApiCensus.Proofs.Signature.Mirroring
import ApiCensus.Proofs.Signature.RoundTrip
import Mathlib.Data.List.Forall2

namespace ApiCensus

open Attempt Signature Signature.Decoding

variable {σ α α' β β' γ γ' : Type}

/-! ## Where types begin -/

namespace Signature

/-- Notes the position. -/
def note : Decoding (List Nat) Unit :=
  modify fun (cursor, places) => (cursor, cursor.pos :: places)

/-- The tree of a type, given how the types inside it are read. -/
def typeBy (inner : Decoding σ SignatureType) : Decoding σ SignatureType := do
  let code ← read Cursor.byte
  match Element.ofCode? code with
  | none => Attempt.malformed (.elementType code)
  | some element => typeFrom TypeBuilder.tree inner element

/-- The tree of a type, given how deep types may still nest. The places where it and the types
    inside it begin are noted, the last one first. -/
def startsWithin : Nat → Decoding (List Nat) SignatureType
  | 0 => throw (.tooDeep maxDepth)
  | depth + 1 => do
    note
    typeBy (startsWithin depth)

/-- The places in a type signature where types begin, as far as it can be read. -/
def typeStarts (blob : ByteArray) : List Nat :=
  (startsWithin maxDepth ({ data := blob }, [])).2.2

/-- The places in a method signature where types begin, as far as it can be read. -/
def methodStarts (blob : ByteArray) : List Nat :=
  (methodOf (startsWithin maxDepth) ({ data := blob }, [])).2.2

example : typeStarts ⟨#[0x15, 0x12, 0x05, 0x02, 0x0E, 0x1D, 0x08]⟩ = [6, 5, 4, 1, 0] := rfl

theorem startsWithin_succ_apply (depth : Nat) (cursor : Cursor) (places : List Nat) :
    startsWithin (depth + 1) (cursor, places) =
      typeBy (startsWithin depth) (cursor, cursor.pos :: places) := rfl

/-- Noting places is no matter for the reading. -/
theorem mirrors_startsWithin (builder : TypeBuilder σ α) (limit : Nat) :
    Decoding.Mirrors Unrelated (typeWithin builder limit) (startsWithin limit) := by
  induction limit with
  | zero => exact mirrors_of_throw _
  | succ limit ih =>
    have hbody : Decoding.Mirrors Unrelated (typeWithin builder (limit + 1))
        (typeBy (startsWithin limit)) := by
      refine Decoding.Mirrors.read_bind fun code => ?_
      cases Element.ofCode? code with
      | none => exact mirrors_of_throw _
      | some element => exact mirrors_typeFrom TypeBuilder.neverFails_tree ih element
    intro start a stop h places
    exact hbody start a stop h (start.1.pos :: places)

end Signature

/-! ## Related trees -/

/-- Two method signatures differ in their types only, and these are related. -/
structure MethodSignature.Related (S : α → α' → Prop) (signature : MethodSignature α)
    (signature' : MethodSignature α') : Prop where
  header : signature.header = signature'.header
  genericCount : signature.genericCount = signature'.genericCount
  requiredCount : signature.requiredCount = signature'.requiredCount
  returnType : S signature.returnType signature'.returnType
  parameters : List.Forall₂ S signature.parameters signature'.parameters

/-- Types are related if their parts are. -/
structure SignatureType.Congruence (S : SignatureType → SignatureType → Prop) : Prop where
  refl : ∀ tree, S tree tree
  vector : ∀ {tree tree'}, S tree tree' → S (.vector tree) (.vector tree')
  array : ∀ {tree tree'} shape, S tree tree' → S (.array tree shape) (.array tree' shape)
  byReference : ∀ {tree tree'}, S tree tree' → S (.byReference tree) (.byReference tree')
  pointer : ∀ {tree tree'}, S tree tree' → S (.pointer tree) (.pointer tree')
  pinned : ∀ {tree tree'}, S tree tree' → S (.pinned tree) (.pinned tree')
  instantiation : ∀ {generic generic' arguments arguments'}, S generic generic' →
    List.Forall₂ S arguments arguments' →
    S (.instantiation generic arguments) (.instantiation generic' arguments')
  modified : ∀ {tree tree'} modifier required, S tree tree' →
    S (.modified modifier tree required) (.modified modifier tree' required)
  functionPointer : ∀ {signature signature'}, MethodSignature.Related S signature signature' →
    S (.functionPointer signature) (.functionPointer signature')

theorem MethodSignature.eq_of_related {signature signature' : MethodSignature α}
    (h : Related Eq signature signature') : signature = signature' := by
  obtain ⟨header, genericCount, requiredCount, returnType, parameters⟩ := signature
  have hparameters := h.parameters
  rw [List.forall₂_eq_eq_eq] at hparameters
  rw [MethodSignature.mk.injEq]
  exact ⟨h.header, h.genericCount, h.requiredCount, h.returnType, hparameters⟩

theorem SignatureType.congruence_eq : Congruence Eq := by
  constructor
  case instantiation =>
    rintro generic _ arguments arguments' rfl harguments
    rw [List.forall₂_eq_eq_eq] at harguments
    rw [harguments]
  case functionPointer =>
    intro signature signature' h
    rw [MethodSignature.eq_of_related h]
  all_goals
    intros
    simp_all

/-! ## Readings of spliced bytes -/

/-- A place in some data, what stands there, and what is put in its place. -/
structure Splice where
  data : ByteArray
  place : Nat
  old : List UInt8
  new : List UInt8

namespace Signature.Decoding

/-- The bytes are read, whatever follows them; nothing is built beside the answer. -/
abbrev ReadsAlone (decoding : Decoding Unit β) (bytes : List UInt8) (b : β) : Prop :=
  Reads (fun _ => True) decoding bytes b

/-- What a reading does that another one has done from `start` on, over `bytes`: it reads the same
    bytes, and also the spliced ones if the place is among those that have been noted. -/
structure Splits (splice : Splice) (related : β → Prop) (start : Cursor) (bytes : List UInt8)
    (noted : List Nat) (decoding : Decoding Unit β) : Prop where
  reads : ∃ b, related b ∧ decoding.ReadsAlone bytes b
  spliced : splice.place ∈ noted → ∃ front back b, start.pos + front.length = splice.place ∧
    bytes = front ++ splice.old ++ back ∧ related b ∧
    decoding.ReadsAlone (front ++ splice.new ++ back) b

/-- Where the first reading ends well in the data, the second one reads the same bytes, and also
    the spliced ones if a type begins at the place. -/
def Splices (splice : Splice) (S : β → β' → Prop) (decoding : Decoding (List Nat) β)
    (other : Decoding Unit β') : Prop :=
  ∀ start places b stop places', start.data = splice.data → start.pos ≤ start.data.size →
    decoding (start, places) = (.ok b, (stop, places')) →
    ∃ bytes noted, start.Passes bytes stop ∧ places' = noted ++ places ∧
      Splits splice (S b) start bytes noted other

section
variable {splice : Splice} {S : β → β' → Prop} {S' : γ → γ' → Prop}
  {decoding : Decoding (List Nat) β} {other : Decoding Unit β'}

theorem Splices.mono {T : β → β' → Prop} (h : Splices splice S decoding other)
    (hST : ∀ b b', S b b' → T b b') : Splices splice T decoding other := by
  intro start places b stop places' hdata hin hrun
  obtain ⟨bytes, noted, hpasses, hplaces, hsplits⟩ := h start places b stop places' hdata hin hrun
  refine ⟨bytes, noted, hpasses, hplaces, ?_, fun hplace => ?_⟩
  · obtain ⟨b', hS, hread⟩ := hsplits.reads
    exact ⟨b', hST b b' hS, hread⟩
  · obtain ⟨front, back, b', hpos, hbytes, hS, hread⟩ := hsplits.spliced hplace
    exact ⟨front, back, b', hpos, hbytes, hST b b' hS, hread⟩

/-- A step that notes nothing. -/
theorem splices_of_reads {start : Cursor} {places : List Nat} {b : β} {stop : Cursor}
    {bytes : List UInt8} {b' : β'} (hpasses : start.Passes bytes stop) (hS : S b b')
    (hread : other.ReadsAlone bytes b') :
    ∃ bytes noted, start.Passes bytes stop ∧ places = noted ++ places ∧
      Splits splice (S b) start bytes noted other :=
  ⟨bytes, [], hpasses, rfl, ⟨b', hS, hread⟩, fun hplace => absurd hplace List.not_mem_nil⟩

theorem splices_pure {b : β} {b' : β'} (h : S b b') :
    Splices splice S (pure b : Decoding (List Nat) β) (pure b') := by
  rintro start places _ _ _ - hin ⟨⟩
  exact splices_of_reads (.refl hin) h (reads_pure b')

theorem splices_throw (fault : Fault) :
    Splices splice S (throw fault : Decoding (List Nat) β) other :=
  fun _ _ _ _ _ _ _ h => absurd (congrArg Prod.fst h) (by simp)

theorem splices_read {step : Attempt Cursor β} (h : Cursor.Rereads step) :
    Splices splice Eq (read step : Decoding (List Nat) β) (read step) := by
  intro start places b stop places' _ hin hrun
  obtain ⟨hresult, hplace⟩ := Prod.mk.inj hrun
  obtain ⟨hstop, rfl⟩ := Prod.mk.inj hplace
  obtain ⟨bytes, hpasses, hread⟩ := h start b stop hin (Prod.ext hresult hstop)
  exact splices_of_reads hpasses rfl (reads_read hread)

theorem splices_build {b : β} {b' : β'} (h : S b b') :
    Splices splice S (build (pure b) : Decoding (List Nat) β) (build (pure b')) := by
  rintro start places _ _ _ - hin ⟨⟩
  exact splices_of_reads (.refl hin) h (reads_build fun state hk => ⟨state, hk, rfl⟩)

theorem Splices.bind {next : β → Decoding (List Nat) γ} {next' : β' → Decoding Unit γ'}
    (hd : Splices splice S decoding other)
    (hn : ∀ b b', S b b' → Splices splice S' (next b) (next' b')) :
    Splices splice S' (decoding >>= next) (other >>= next') := by
  intro start places c stop places' hdata hin h
  obtain ⟨b, ⟨middle, between⟩, hb, hc⟩ := bind_eq_ok h
  obtain ⟨bytes, noted, hpasses, rfl, hfirst⟩ := hd start places b middle between hdata hin hb
  have hsecond : ∀ b', S b b' → ∃ more others, middle.Passes more stop ∧
      places' = others ++ (noted ++ places) ∧ Splits splice (S' c) middle more others (next' b') :=
    fun b' hS => hn b b' hS middle _ c stop places' (hpasses.data_eq.trans hdata)
      hpasses.inside hc
  obtain ⟨b', hS, hread⟩ := hfirst.reads
  obtain ⟨more, others, hmore, rfl, hrest⟩ := hsecond b' hS
  refine ⟨bytes ++ more, others ++ noted, hpasses.trans hmore, (List.append_assoc ..).symm, ?_, ?_⟩
  · obtain ⟨c', hS', hread'⟩ := hrest.reads
    exact ⟨c', hS', hread.bind hread'⟩
  intro hplace
  rcases List.mem_append.1 hplace with hlater | hearlier
  · obtain ⟨front, back, c', hpos, rfl, hS', hread'⟩ := hrest.spliced hlater
    refine ⟨bytes ++ front, back, c', ?_, by simp, hS', ?_⟩
    · rw [List.length_append, ← Nat.add_assoc, ← hpasses.pos_eq, hpos]
    · have hboth := hread.bind hread'
      simpa using hboth
  · obtain ⟨front, back, answer, hpos, rfl, hanswer, hspliced⟩ := hfirst.spliced hearlier
    obtain ⟨more', _, hmore', -, hafter⟩ := hsecond answer hanswer
    obtain rfl := hmore'.unique hmore
    obtain ⟨c', hS', hread'⟩ := hafter.reads
    refine ⟨front, back ++ more', c', hpos, by simp, hS', ?_⟩
    have hboth := hspliced.bind hread'
    simpa using hboth

/-- What is read is the same for both readings. -/
theorem Splices.read_bind {step : Attempt Cursor β} {next : β → Decoding (List Nat) γ}
    {next' : β → Decoding Unit γ'} (h : Cursor.Rereads step)
    (hn : ∀ b, Splices splice S' (next b) (next' b)) :
    Splices splice S' (read step >>= next) (read step >>= next') := by
  refine (splices_read h).bind ?_
  rintro b _ rfl
  exact hn b

theorem Splices.ite {c : Prop} [Decidable c] {decoding₂ : Decoding (List Nat) β}
    {other₂ : Decoding Unit β'} (h : c → Splices splice S decoding other)
    (h₂ : ¬ c → Splices splice S decoding₂ other₂) :
    Splices splice S (if c then decoding else decoding₂) (if c then other else other₂) := by
  by_cases hc : c
  · rw [if_pos hc, if_pos hc]
    exact h hc
  · rw [if_neg hc, if_neg hc]
    exact h₂ hc

theorem splices_repeated (h : Splices splice S decoding other) (count : Nat) :
    Splices splice (List.Forall₂ S) (repeated decoding count) (repeated other count) := by
  induction count with
  | zero => exact splices_pure .nil
  | succ count ih =>
    refine h.bind fun first first' hfirst => ih.bind fun rest rest' hrest => ?_
    exact splices_pure (.cons hfirst hrest)

end

end Signature.Decoding

/-! ## Signatures -/

namespace Signature

open Cursor (Rereads rereads_pure rereads_throw)

theorem rereads_header : Rereads header :=
  Cursor.rereads_byte.bind fun _ => rereads_pure _

theorem rereads_arrayShape : Rereads arrayShape := by
  refine Compressed.rereads_number.bind fun rank => (rereads_throw _).ite ?_
  refine Compressed.rereads_number.bind fun sizeCount => (rereads_throw _).ite ?_
  refine (Compressed.rereads_number.repeated sizeCount).bind fun sizes => ?_
  refine Compressed.rereads_number.bind fun boundCount => (rereads_throw _).ite ?_
  exact (Compressed.rereads_signedNumber.repeated boundCount).bind fun _ => rereads_pure _

/-! ### Parameters -/

section
variable {type : Decoding Unit SignatureType} {index left limit : Nat}
  {listed : List SignatureType × Option Nat} {bytes : List UInt8}

/-- The mark is read with the parameter behind it. -/
theorem reads_parameters_marked
    (h : ReadsAlone (parameterThen type (index + 1) (some index) left) bytes listed) :
    ReadsAlone (parameters type index none (left + 1)) ([Element.sentinel] ++ bytes) listed := by
  refine Reads.peek ?_
  rw [if_pos (beq_self_eq_true _)]
  have hadvance : Cursor.Reads (Cursor.advance 1) [Element.sentinel] () :=
    Cursor.reads_advance [Element.sentinel]
  exact (reads_read hadvance).bind h

theorem reads_parameters_unmarked {mark : Option Nat} (hu : Unmarked bytes)
    (h : ReadsAlone (parameterThen type (index + 1) mark left) bytes listed) :
    ReadsAlone (parameters type index mark (left + 1)) bytes listed := by
  obtain ⟨lead, tail, rfl, hlead⟩ := hu
  refine Reads.peek ?_
  rw [if_neg (by simpa using hlead)]
  exact h

/-- A type does not begin with the mark. -/
theorem unmarked_of_reads {next : SignatureType → Decoding Unit β} {b : β}
    (h : ReadsAlone (typeWithin TypeBuilder.tree limit >>= next) bytes b) : Unmarked bytes := by
  have hsees : Cursor.Sees { data := bytes.toByteArray } (bytes ++ []) := by
    simpa using Cursor.sees_start bytes
  obtain ⟨_, -, hrun⟩ := h _ () [] hsees trivial
  obtain ⟨tree, place, htype, -⟩ := bind_eq_ok hrun
  obtain ⟨_, element, middle, -, -, hbyte, -⟩ := typeWithin_eq_ok htype
  obtain ⟨hs, -⟩ := Cursor.passes_of_byte hbyte
  have hbytes := (Cursor.sees_start bytes).rest_eq.symm.trans hs.rest_eq
  rw [hbytes]
  exact unmarked_code element _

end

section
variable {splice : Splice} {S : SignatureType → SignatureType → Prop} {limit : Nat}
  {inner : Decoding (List Nat) SignatureType}

/-- What is listed for parameters: related types, and the same number of required ones. -/
def ListedAlike (S : α → α' → Prop) (listed : List α × Option Nat)
    (listed' : List α' × Option Nat) : Prop :=
  List.Forall₂ S listed.1 listed'.1 ∧ listed.2 = listed'.2

theorem splices_parameters (hi : Splices splice S inner (typeWithin TypeBuilder.tree limit))
    (index : Nat) (mark : Option Nat) (left : Nat) :
    Splices splice (ListedAlike S) (parameters inner index mark left)
      (parameters (typeWithin TypeBuilder.tree limit) index mark left) := by
  induction left generalizing index mark with
  | zero => exact splices_pure ⟨.nil, rfl⟩
  | succ left ih =>
    have hthen : ∀ mark', Splices splice (ListedAlike S)
        (parameterThen inner (index + 1) mark' left)
        (parameterThen (typeWithin TypeBuilder.tree limit) (index + 1) mark' left) := by
      intro mark'
      refine hi.bind fun first first' hfirst => ?_
      refine (ih (index + 1) mark').bind fun rest rest' hrest => ?_
      exact splices_pure ⟨.cons hfirst hrest.1, hrest.2⟩
    intro start places listed stop places' hdata hin h
    rcases parameters_succ_cases h with ⟨rfl, before, hmark, h⟩ | ⟨-, h⟩
    · obtain ⟨bytes, noted, hpasses, hplaces, hsplits⟩ :=
        hthen (some index) before places listed stop places' (hmark.data_eq.trans hdata)
          hmark.inside h
      refine ⟨[Element.sentinel] ++ bytes, noted, hmark.trans hpasses, hplaces, ?_, ?_⟩
      · obtain ⟨listed', hS, hread⟩ := hsplits.reads
        exact ⟨listed', hS, reads_parameters_marked hread⟩
      · intro hplace
        obtain ⟨front, back, listed', hpos, rfl, hS, hread⟩ := hsplits.spliced hplace
        refine ⟨[Element.sentinel] ++ front, back, listed', ?_, by simp, hS, ?_⟩
        · rw [← hpos, hmark.pos_eq, List.length_append, Nat.add_assoc]
        · have hmarked := reads_parameters_marked hread
          simpa using hmarked
    · obtain ⟨bytes, noted, hpasses, hplaces, hsplits⟩ :=
        hthen mark start places listed stop places' hdata hin h
      refine ⟨bytes, noted, hpasses, hplaces, ?_, fun hplace => ?_⟩
      · obtain ⟨listed', hS, hread⟩ := hsplits.reads
        exact ⟨listed', hS, reads_parameters_unmarked (unmarked_of_reads hread) hread⟩
      · obtain ⟨front, back, listed', hpos, hbytes, hS, hread⟩ := hsplits.spliced hplace
        exact ⟨front, back, listed', hpos, hbytes, hS,
          reads_parameters_unmarked (unmarked_of_reads hread) hread⟩

theorem splices_methodOf (hi : Splices splice S inner (typeWithin TypeBuilder.tree limit)) :
    Splices splice (MethodSignature.Related S) (methodOf inner)
      (methodOf (typeWithin TypeBuilder.tree limit)) := by
  have hrest : ∀ header : Header, ∀ genericCount, Splices splice (MethodSignature.Related S)
      (read Compressed.number >>= fun count => inner >>= fun returnType =>
        parameters inner 0 none count >>= fun listed =>
          pure ⟨header, genericCount, listed.2.getD count, returnType, listed.1⟩)
      (read Compressed.number >>= fun count => typeWithin TypeBuilder.tree limit >>=
        fun returnType => parameters (typeWithin TypeBuilder.tree limit) 0 none count >>=
          fun listed =>
            pure ⟨header, genericCount, listed.2.getD count, returnType, listed.1⟩) := by
    intro header genericCount
    refine .read_bind Compressed.rereads_number fun count => hi.bind fun _ _ hreturn => ?_
    refine (splices_parameters hi 0 none count).bind fun listed listed' hlisted => ?_
    exact splices_pure ⟨rfl, rfl, by rw [hlisted.2], hreturn, hlisted.1⟩
  refine .read_bind rereads_header fun header => .ite (fun _ => ?_) fun _ => splices_throw _
  refine .ite (fun _ => ?_) fun _ => hrest header 0
  exact .read_bind Compressed.rereads_number fun genericCount => hrest header genericCount

theorem splices_nominal (form : NominalForm) :
    Splices splice Eq (nominal TypeBuilder.tree form) (nominal TypeBuilder.tree form) := by
  refine .read_bind Compressed.rereads_token fun token => ?_
  generalize token.table? = table
  split
  · exact splices_build rfl
  · exact splices_build rfl
  · exact splices_build rfl
  · exact splices_throw _

theorem splices_typeFrom (hS : SignatureType.Congruence S)
    (hi : Splices splice S inner (typeWithin TypeBuilder.tree limit)) (element : Element) :
    Splices splice S (typeFrom TypeBuilder.tree inner element)
      (typeFrom TypeBuilder.tree (typeWithin TypeBuilder.tree limit) element) := by
  have hsame : ∀ tree tree' : SignatureType, tree = tree' → S tree tree' := by
    rintro tree _ rfl
    exact hS.refl tree
  cases element with
  | primitive type => exact splices_build (hS.refl _)
  | classType => exact (splices_nominal .classType).mono hsame
  | valueType => exact (splices_nominal .valueType).mono hsame
  | pointer => exact hi.bind fun _ _ h => splices_build (hS.pointer h)
  | byReference => exact hi.bind fun _ _ h => splices_build (hS.byReference h)
  | pinned => exact hi.bind fun _ _ h => splices_build (hS.pinned h)
  | vector => exact hi.bind fun _ _ h => splices_build (hS.vector h)
  | array =>
    exact hi.bind fun _ _ h => .read_bind rereads_arrayShape fun shape =>
      splices_build (hS.array shape h)
  | instantiation =>
    refine hi.bind fun _ _ h => .read_bind Compressed.rereads_number fun count => ?_
    refine .ite (fun _ => splices_throw _) fun _ => ?_
    exact (splices_repeated hi count).bind fun _ _ harguments =>
      splices_build (hS.instantiation h harguments)
  | typeParameter =>
    exact .read_bind Compressed.rereads_number fun index => splices_build (hS.refl _)
  | methodParameter =>
    exact .read_bind Compressed.rereads_number fun index => splices_build (hS.refl _)
  | modifier required =>
    refine (splices_nominal .unstated).bind ?_
    rintro modifier _ rfl
    exact hi.bind fun _ _ h => splices_build (hS.modified modifier required h)
  | functionPointer =>
    exact (splices_methodOf hi).bind fun _ _ h => splices_build (hS.functionPointer h)

theorem splices_typeBy (hS : SignatureType.Congruence S)
    (hi : Splices splice S inner (typeWithin TypeBuilder.tree limit)) :
    Splices splice S (typeBy inner) (typeWithin TypeBuilder.tree (limit + 1)) := by
  refine .read_bind Cursor.rereads_byte fun code => ?_
  cases Element.ofCode? code with
  | none => exact splices_throw _
  | some element => exact splices_typeFrom hS hi element

/-- Whatever type begins at the place, the old bytes are the first of it, and with the new ones in
    their stead a related type is read, if types may nest `extra` levels deeper. -/
def Replaces (splice : Splice) (S : SignatureType → SignatureType → Prop) (extra : Nat) : Prop :=
  ∀ limit start places tree stop places' bytes, start.data = splice.data →
    start.pos = splice.place →
    typeBy (startsWithin limit) (start, places) = (.ok tree, (stop, places')) →
    start.Passes bytes stop →
    ∃ back tree', bytes = splice.old ++ back ∧ S tree tree' ∧
      ReadsAlone (typeWithin TypeBuilder.tree (extra + (limit + 1))) (splice.new ++ back) tree'

/-- **Where a type is read, the same bytes are read again, and those with the splice too, if that
    is so for the type at the place of the splice.** -/
theorem splices_startsWithin {extra : Nat} (hS : SignatureType.Congruence S)
    (hr : Replaces splice S extra) (limit : Nat) :
    Splices splice S (startsWithin limit) (typeWithin TypeBuilder.tree (extra + limit)) := by
  induction limit with
  | zero => exact splices_throw _
  | succ limit ih =>
    intro start places tree stop places' hdata hin h
    rw [startsWithin_succ_apply] at h
    obtain ⟨bytes, noted, hpasses, rfl, hsplits⟩ :=
      splices_typeBy hS ih start (start.pos :: places) tree stop places' hdata hin h
    refine ⟨bytes, noted ++ [start.pos], hpasses, by simp, hsplits.reads, fun hplace => ?_⟩
    rcases List.mem_append.1 hplace with hinside | hself
    · exact hsplits.spliced hinside
    · have hpos : start.pos = splice.place := (List.mem_singleton.1 hself).symm
      obtain ⟨back, tree', rfl, htree, hread⟩ :=
        hr limit start _ tree stop _ bytes hdata hpos h hpasses
      exact ⟨[], back, tree', hpos, rfl, htree, hread⟩

end

/-! ## Types elsewhere -/

/-- No type begins at the end of the data. -/
theorem replaces_end (data : ByteArray) (S : SignatureType → SignatureType → Prop) (extra : Nat) :
    Replaces { data, place := data.size, old := [], new := [] } S extra := by
  intro limit start places tree stop places' bytes hdata hpos h hpasses
  obtain ⟨code, ⟨middle, _⟩, hbyte, -⟩ := bind_eq_ok h
  obtain ⟨hresult, hplace⟩ := Prod.mk.inj hbyte
  have hpassed := Cursor.passes_of_byte (Prod.ext hresult (congrArg Prod.fst hplace))
  have hinside := hpassed.inside
  rw [hpassed.pos_eq, hpassed.data_eq, hdata, hpos] at hinside
  exact absurd hinside (Nat.not_succ_le_self data.size)

/-- What has been read is read again wherever its bytes stand. -/
theorem Decoding.Splices.reads {decoding : Decoding (List Nat) β} {other : Decoding Unit β}
    {start : Cursor} {stop : Cursor × List Nat} {b : β}
    (hd : Splices { data := start.data, place := start.data.size, old := [], new := [] } Eq
      decoding other)
    (hin : start.pos ≤ start.data.size) (h : decoding (start, []) = (.ok b, stop)) :
    ∃ bytes, start.Passes bytes stop.1 ∧ ReadsAlone other bytes b := by
  obtain ⟨bytes, _, hpasses, -, hsplits⟩ := hd start [] b stop.1 stop.2 rfl hin h
  obtain ⟨_, rfl, hread⟩ := hsplits.reads
  exact ⟨bytes, hpasses, hread⟩

theorem splices_types (data : ByteArray) (extra limit : Nat) :
    Splices { data, place := data.size, old := [], new := [] } Eq (startsWithin limit)
      (typeWithin TypeBuilder.tree (extra + limit)) :=
  splices_startsWithin SignatureType.congruence_eq (replaces_end data _ extra) limit

theorem splices_methods (data : ByteArray) (extra limit : Nat) :
    Splices { data, place := data.size, old := [], new := [] } Eq (methodOf (startsWithin limit))
      (methodOf (typeWithin TypeBuilder.tree (extra + limit))) :=
  (splices_methodOf (splices_types data extra limit)).mono fun _ _ h =>
    MethodSignature.eq_of_related h

/-- **A type is read again wherever its bytes stand, also where types may nest deeper.** -/
theorem reads_of_typeWithin {limit : Nat} {start stop : Cursor} {tree : SignatureType}
    (hin : start.pos ≤ start.data.size)
    (h : typeWithin TypeBuilder.tree limit (start, ()) = (.ok tree, (stop, ()))) (extra : Nat) :
    ∃ bytes, start.Passes bytes stop ∧
      ReadsAlone (typeWithin TypeBuilder.tree (extra + limit)) bytes tree := by
  obtain ⟨noted, places, hstarts, -⟩ :=
    mirrors_startsWithin TypeBuilder.tree limit (start, ()) tree (stop, ()) h []
  obtain ⟨bytes, hpasses, hread⟩ := (splices_types start.data 0 limit).reads hin hstarts
  obtain ⟨_, -, hrun⟩ := hread start () stop.rest hpasses.1 trivial
  rw [Nat.zero_add, h] at hrun
  obtain rfl := Except.ok.inj (congrArg Prod.fst hrun)
  exact (splices_types start.data extra limit).reads hin hstarts

/-- So it is with the type that data begins with. -/
theorem reads_taken {limit : Nat} {data : ByteArray} {stop : Cursor} {tree : SignatureType}
    (h : typeWithin TypeBuilder.tree limit ({ data }, ()) = (.ok tree, (stop, ()))) (extra : Nat) :
    ReadsAlone (typeWithin TypeBuilder.tree (extra + limit)) (data.data.toList.take stop.pos)
      tree := by
  obtain ⟨bytes, hpasses, hread⟩ := reads_of_typeWithin (Nat.zero_le _) h extra
  have hbytes : data.data.toList = bytes ++ stop.rest := hpasses.1.rest_eq
  have hlength : stop.pos = bytes.length := hpasses.pos_eq.trans (Nat.zero_add _)
  rwa [hbytes, hlength, List.take_left]

/-- What stands at the front of bytes that are read as a type: the byte of an element, behind that
    of a class or of a value type a token, and behind that of an array the type of its elements. -/
theorem exists_front {limit : Nat} {bytes : List UInt8} {tree : SignatureType}
    (h : ReadsAlone (typeWithin TypeBuilder.tree limit) bytes tree) :
    ∃ (element : Element) (rest : List UInt8), bytes = element.code :: rest ∧
      (element = .classType ∨ element = .valueType → ∃ token tokenBytes more,
        rest = tokenBytes ++ more ∧ Cursor.Reads Compressed.token tokenBytes token) ∧
      (element = .vector → ∃ depth part partBytes more, rest = partBytes ++ more ∧
        ReadsAlone (typeWithin TypeBuilder.tree depth) partBytes part) := by
  have hsees : Cursor.Sees { data := bytes.toByteArray } (bytes ++ []) := by
    simpa using Cursor.sees_start bytes
  obtain ⟨_, -, hrun⟩ := h _ () [] hsees trivial
  obtain ⟨depth, element, middle, -, -, hbyte, hrest⟩ := typeWithin_eq_ok hrun
  have hpassed := Cursor.passes_of_byte hbyte
  have hbytes := (Cursor.sees_start bytes).rest_eq.symm.trans hpassed.1.rest_eq
  refine ⟨element, middle.1.rest, hbytes, fun helement => ?_, fun helement => ?_⟩
  · obtain ⟨form, hnominal⟩ : ∃ form,
        nominal TypeBuilder.tree form middle = (.ok tree, _) := by
      rcases helement with rfl | rfl
      · exact ⟨.classType, hrest⟩
      · exact ⟨.valueType, hrest⟩
    obtain ⟨token, htoken, -⟩ := nominal_eq_ok hnominal
    obtain ⟨tokenBytes, hpasses, hread⟩ :=
      Compressed.rereads_token middle.1 token _ hpassed.inside htoken
    exact ⟨token, tokenBytes, _, hpasses.1.rest_eq, hread⟩
  · obtain rfl := helement
    obtain ⟨part, place, hpart, -⟩ := bind_eq_ok hrest
    obtain ⟨partBytes, hpasses, hread⟩ := reads_of_typeWithin hpassed.inside hpart 0
    exact ⟨0 + depth, part, partBytes, _, hpasses.1.rest_eq, hread⟩

/-! ## Handles -/

/-- The bytes of a named type: the byte of a class or of a value type, and a token. -/
def IsHandle (bytes : List UInt8) (token : Token) : Prop :=
  ∃ (element : Element) (tokenBytes : List UInt8),
    (element = .classType ∨ element = .valueType) ∧ bytes = element.code :: tokenBytes ∧
      Cursor.Reads Compressed.token tokenBytes token

/-- The handle of a specification is read as such. -/
theorem reads_typeBy_handle {kept : σ → Prop} {inner : Decoding σ SignatureType}
    {bytes : List UInt8} {token : Token} (h : IsHandle bytes token)
    (htable : token.table? = some .typeSpec) :
    ∃ form, Decoding.Reads kept (typeBy inner) bytes (.specification token form) := by
  obtain ⟨element, tokenBytes, helement, rfl, hread⟩ := h
  have hnominal : ∀ form, Decoding.Reads kept (nominal TypeBuilder.tree form) tokenBytes
      (.specification token form) := by
    intro form
    refine (reads_read hread).bind_nil ?_
    rw [htable]
    exact reads_tree _
  rcases helement with rfl | rfl
  · exact ⟨.classType, (Decoding.reads_byte _).bind (hnominal .classType)⟩
  · exact ⟨.valueType, (Decoding.reads_byte _).bind (hnominal .valueType)⟩

/-- The type of the bytes can stand for the handle of a specification. -/
theorem replaces_handle {before handle type after : List UInt8} {token : Token}
    {tree : SignatureType} {S : SignatureType → SignatureType → Prop} {extra : Nat}
    (hhandle : IsHandle handle token) (htable : token.table? = some .typeSpec)
    (htype : ∀ limit, ReadsAlone (typeWithin TypeBuilder.tree (extra + limit)) type tree)
    (hS : ∀ form, S (.specification token form) tree) :
    Replaces { data := (before ++ (handle ++ after)).toByteArray, place := before.length
               old := handle, new := type } S extra := by
  intro limit start places found stop places' bytes hdata hpos h hpasses
  obtain ⟨form, hread⟩ : ∃ form, Decoding.Reads (fun _ => True) (typeBy (startsWithin limit)) handle
      (.specification token form) := reads_typeBy_handle hhandle htable
  have hsees : start.Sees (handle ++ after) := by
    obtain ⟨_, _⟩ := start
    obtain rfl := hdata
    obtain rfl := hpos
    exact Cursor.sees_behind before (handle ++ after)
  obtain ⟨_, -, hrun⟩ := hread start places after hsees trivial
  rw [h] at hrun
  obtain ⟨hfound, hplace⟩ := Prod.mk.inj hrun
  obtain rfl := Except.ok.inj hfound
  have hstop : stop = start.forward handle.length := (Prod.mk.inj hplace).1
  have hhandled : start.Passes handle stop := by
    refine ⟨?_, hstop⟩
    rw [hstop, hsees.forward.rest_eq]
    exact hsees
  obtain rfl := hpasses.unique hhandled
  refine ⟨[], tree, (List.append_nil _).symm, hS form, ?_⟩
  rw [List.append_nil]
  exact htype (limit + 1)

/-- A reading of all the data reads the spliced data too. -/
theorem Decoding.Splices.run {before old new after : List UInt8} {S : β → β' → Prop}
    {decoding : Decoding (List Nat) β} {other : Decoding Unit β'} {b : β}
    {stop : Cursor × List Nat}
    (hd : Splices { data := (before ++ (old ++ after)).toByteArray, place := before.length
                    old, new } S decoding other)
    (h : decoding ({ data := (before ++ (old ++ after)).toByteArray }, []) = (.ok b, stop))
    (hplace : before.length ∈ stop.2) :
    ∃ b' stop', S b b' ∧
      other ({ data := (before ++ (new ++ after)).toByteArray }, ()) = (.ok b', stop') := by
  obtain ⟨bytes, noted, hpasses, hnoted, hsplits⟩ :=
    hd { data := (before ++ (old ++ after)).toByteArray } [] b stop.1 stop.2 rfl (Nat.zero_le _) h
  rw [hnoted, List.append_nil] at hplace
  obtain ⟨front, back, b', hpos, rfl, hS, hread⟩ := hsplits.spliced hplace
  have hdata : before ++ (old ++ after) = front ++ old ++ back ++ stop.1.rest :=
    (Cursor.sees_start _).rest_eq.symm.trans hpasses.1.rest_eq
  rw [List.append_assoc, List.append_assoc] at hdata
  rw [Nat.zero_add] at hpos
  obtain ⟨rfl, hrest⟩ := List.append_inj hdata hpos.symm
  rw [List.append_cancel_left hrest]
  have hsees := Cursor.sees_start (before ++ (new ++ (back ++ stop.1.rest)))
  obtain ⟨_, -, hrun⟩ := hread { data := (before ++ (new ++ (back ++ stop.1.rest))).toByteArray }
    () stop.1.rest (by simpa using hsees) trivial
  exact ⟨b', _, hS, hrun⟩

end Signature

end ApiCensus
