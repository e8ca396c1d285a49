/-
  One signature read twice, while two things are built from it.

  * `TypeBuilder.Tracks`: whatever shape a type has, building it ends alike for two builders.
  * `Signature.type_tracks`, `method_tracks`, `fieldType_tracks`: then so does reading a signature,
    and both readings leave the same bytes unread.
-/
import ApiCensus.Proofs.Bytes.Unread
import ApiCensus.Signature.Decoder

namespace ApiCensus

open Attempt Signature Signature.Decoding

variable {σ τ α β : Type} {given : Given} {unread : Nat} {R : σ → τ → Prop}

/-- Whatever shape a type has, building it ends alike. -/
structure TypeBuilder.Tracks (given : Given) (R : σ → τ → Prop) (builder : TypeBuilder σ α)
    (builder' : TypeBuilder τ α) : Prop where
  primitive : ∀ type, Attempt.Tracks given R (builder.primitive type) (builder'.primitive type)
  definition : ∀ token form,
    Attempt.Tracks given R (builder.definition token form) (builder'.definition token form)
  reference : ∀ token form,
    Attempt.Tracks given R (builder.reference token form) (builder'.reference token form)
  specification : ∀ token form,
    Attempt.Tracks given R (builder.specification token form) (builder'.specification token form)
  vector : ∀ element, Attempt.Tracks given R (builder.vector element) (builder'.vector element)
  array : ∀ element shape,
    Attempt.Tracks given R (builder.array element shape) (builder'.array element shape)
  byReference : ∀ element,
    Attempt.Tracks given R (builder.byReference element) (builder'.byReference element)
  pointer : ∀ element, Attempt.Tracks given R (builder.pointer element) (builder'.pointer element)
  pinned : ∀ element, Attempt.Tracks given R (builder.pinned element) (builder'.pinned element)
  instantiation : ∀ generic arguments, Attempt.Tracks given R
    (builder.instantiation generic arguments) (builder'.instantiation generic arguments)
  typeParameter : ∀ index,
    Attempt.Tracks given R (builder.typeParameter index) (builder'.typeParameter index)
  methodParameter : ∀ index,
    Attempt.Tracks given R (builder.methodParameter index) (builder'.methodParameter index)
  modified : ∀ modifier unmodified required, Attempt.Tracks given R
    (builder.modified modifier unmodified required)
    (builder'.modified modifier unmodified required)
  functionPointer : ∀ signature,
    Attempt.Tracks given R (builder.functionPointer signature) (builder'.functionPointer signature)

namespace Signature

/-- Two readings at one position, with at most `unread` bytes behind it. What they build in is
    related. -/
structure Placed (unread : Nat) (R : σ → τ → Prop) (place : Cursor × σ) (place' : Cursor × τ) :
    Prop where
  cursor : place.1 = place'.1
  remaining : place.1.remaining ≤ unread
  state : R place.2 place'.2

/-- Readings of one signature that end alike. -/
abbrev Decoding.Tracks (given : Given) (unread : Nat) (R : σ → τ → Prop) (decoding : Decoding σ β)
    (decoding' : Decoding τ β) : Prop :=
  Attempt.Tracks given (Placed unread R) decoding decoding'

theorem readsOn_header : ReadsOn header :=
  Cursor.readsOn_byte.bind fun _ => readsOn_pure _

theorem readsOn_arrayShape : ReadsOn arrayShape := by
  refine Compressed.readsOn_number.bind fun rank => (readsOn_throw _).ite ?_
  refine Compressed.readsOn_number.bind fun sizeCount => (readsOn_throw _).ite ?_
  refine (Compressed.readsOn_number.repeated sizeCount).bind fun sizes => ?_
  refine Compressed.readsOn_number.bind fun boundCount => (readsOn_throw _).ite ?_
  exact (Compressed.readsOn_signedNumber.repeated boundCount).bind fun _ => readsOn_pure _

theorem read_tracks {step : Attempt Cursor β} (h : ReadsOn step) :
    Decoding.Tracks given unread R (read step) (read step) := by
  rintro ⟨cursor, s⟩ ⟨_, t⟩ ⟨rfl, hu, hR⟩
  exact .same ⟨rfl, h unread cursor hu, hR⟩

theorem Placed.mono {fewer : Nat} (h : fewer ≤ unread) {place : Cursor × σ} {place' : Cursor × τ}
    (hp : Placed fewer R place place') : Placed unread R place place' :=
  ⟨hp.cursor, Nat.le_trans hp.remaining h, hp.state⟩

/-- After a byte there are fewer to read. -/
theorem byte_bind_tracks {next : UInt8 → Decoding σ β} {next' : UInt8 → Decoding τ β}
    (h : ∀ fewer < unread, ∀ code, Decoding.Tracks given fewer R (next code) (next' code)) :
    Decoding.Tracks given unread R (read Cursor.byte >>= next) (read Cursor.byte >>= next') := by
  rintro ⟨cursor, s⟩ ⟨_, t⟩ ⟨rfl, hu, hR⟩
  rw [bind_apply, bind_apply, Decoding.read, Decoding.read, onPart, onPart]
  rcases hbyte : Cursor.byte cursor with ⟨fault | code, stop⟩
  · have hstop := Cursor.readsOn_byte unread cursor hu
    rw [hbyte] at hstop
    exact .same ⟨rfl, hstop, hR⟩
  · have hstop := Cursor.remaining_of_byte hbyte
    have hu' : cursor.remaining ≤ unread := hu
    have hends := h stop.remaining (by omega) code (stop, s) (stop, t) ⟨rfl, Nat.le_refl _, hR⟩
    exact hends.mono fun _ _ hp => hp.mono (by omega)

theorem build_tracks {step : Attempt σ β} {step' : Attempt τ β}
    (h : Attempt.Tracks given R step step') :
    Decoding.Tracks given unread R (build step) (build step') := by
  rintro ⟨cursor, s⟩ ⟨_, t⟩ ⟨rfl, hu, hR⟩
  have hends := h s t hR
  simp only [build, onPart]
  generalize step s = outcome, step' t = outcome' at hends ⊢
  cases hends with
  | same hR' => exact .same ⟨rfl, hu, hR'⟩
  | firstFails hg => exact .firstFails hg
  | secondFails hg => exact .secondFails hg

theorem onBytes_tracks {decoding : Decoding σ β} {decoding' : Decoding τ β} {data : ByteArray}
    (h : Decoding.Tracks given unread R decoding decoding') (hd : data.size ≤ unread) :
    Attempt.Tracks given R (decoding.onBytes data) (decoding'.onBytes data) := by
  intro s t hR
  have hends := h ({ data }, s) ({ data }, t) ⟨rfl, hd, hR⟩
  simp only [onBytes]
  generalize decoding ({ data }, s) = outcome, decoding' ({ data }, t) = outcome' at hends ⊢
  cases hends with
  | same hR' => exact .same hR'.state
  | firstFails hg => exact .firstFails hg
  | secondFails hg => exact .secondFails hg

section
variable {step : Decoding σ β} {step' : Decoding τ β}

theorem repeated_tracks (h : Decoding.Tracks given unread R step step') (count : Nat) :
    Decoding.Tracks given unread R (Attempt.repeated step count)
      (Attempt.repeated step' count) := by
  induction count with
  | zero => exact Tracks.pure []
  | succ count ih => exact h.bind fun _ => ih.bind fun _ => Tracks.pure _

end

section
variable {type : Decoding σ α} {type' : Decoding τ α}

/-- A parameter and those behind it. -/
theorem parameter_cons_tracks (h : Decoding.Tracks given unread R type type') {index left : Nat}
    {mark : Option Nat}
    (hr : Decoding.Tracks given unread R (parameters type index mark left)
      (parameters type' index mark left)) :
    Decoding.Tracks given unread R
      (type >>= fun parameter => parameters type index mark left >>= fun rest =>
        pure (parameter :: rest.1, rest.2))
      (type' >>= fun parameter => parameters type' index mark left >>= fun rest =>
        pure (parameter :: rest.1, rest.2)) :=
  h.bind fun _ => hr.bind fun _ => Tracks.pure _

theorem parameters_tracks (h : Decoding.Tracks given unread R type type') (index : Nat)
    (mark : Option Nat) (left : Nat) :
    Decoding.Tracks given unread R (parameters type index mark left)
      (parameters type' index mark left) := by
  induction left generalizing index mark with
  | zero => exact Tracks.pure _
  | succ left ih =>
    refine Tracks.bind (read_tracks Cursor.readsOn_peek) fun next => ?_
    refine Tracks.ite (fun _ => Tracks.ite (fun _ => ?_) fun _ => ?_) fun _ => ?_
    · exact Tracks.bind (Tracks.throw _) fun mark => parameter_cons_tracks h (ih (index + 1) mark)
    · refine Tracks.bind (read_tracks (Cursor.readsOn_advance 1)) fun _ => ?_
      exact Tracks.bind (Tracks.pure _) fun mark => parameter_cons_tracks h (ih (index + 1) mark)
    · exact Tracks.bind (Tracks.pure _) fun mark => parameter_cons_tracks h (ih (index + 1) mark)

/-- What follows the header of a method signature and the count of generic parameters. -/
theorem method_rest_tracks (h : Decoding.Tracks given unread R type type') (header : Header)
    (genericCount : Nat) :
    Decoding.Tracks given unread R
      (read Compressed.number >>= fun count => type >>= fun returnType =>
        parameters type 0 none count >>= fun listed =>
          pure (⟨header, genericCount, listed.2.getD count, returnType, listed.1⟩ :
            MethodSignature α))
      (read Compressed.number >>= fun count => type' >>= fun returnType =>
        parameters type' 0 none count >>= fun listed =>
          pure (⟨header, genericCount, listed.2.getD count, returnType, listed.1⟩ :
            MethodSignature α)) := by
  refine Tracks.bind (read_tracks Compressed.readsOn_number) fun count => h.bind fun _ => ?_
  exact Tracks.bind (parameters_tracks h 0 none count) fun _ => Tracks.pure _

theorem methodOf_tracks (h : Decoding.Tracks given unread R type type') :
    Decoding.Tracks given unread R (methodOf type) (methodOf type') := by
  refine Tracks.bind (read_tracks readsOn_header) fun header => ?_
  refine Tracks.ite (fun _ => Tracks.ite (fun _ => ?_) fun _ => ?_) fun _ => Tracks.throw _
  · refine Tracks.bind (read_tracks Compressed.readsOn_number) fun genericCount => ?_
    exact method_rest_tracks h header genericCount
  · exact Tracks.bind (Tracks.pure 0) fun genericCount => method_rest_tracks h header genericCount

end

section
variable {builder : TypeBuilder σ α} {builder' : TypeBuilder τ α}

theorem nominal_tracks (hb : builder.Tracks given R builder') (form : NominalForm) :
    Decoding.Tracks given unread R (nominal builder form) (nominal builder' form) := by
  refine Tracks.bind (read_tracks Compressed.readsOn_token) fun token => ?_
  split
  · exact build_tracks (hb.definition token form)
  · exact build_tracks (hb.reference token form)
  · exact build_tracks (hb.specification token form)
  · exact Tracks.throw _

theorem typeFrom_tracks (hb : builder.Tracks given R builder') {inner : Decoding σ α}
    {inner' : Decoding τ α} (hi : Decoding.Tracks given unread R inner inner') (element : Element) :
    Decoding.Tracks given unread R (typeFrom builder inner element)
      (typeFrom builder' inner' element) := by
  cases element with
  | primitive type => exact build_tracks (hb.primitive type)
  | classType => exact nominal_tracks hb .classType
  | valueType => exact nominal_tracks hb .valueType
  | pointer => exact hi.bind fun element => build_tracks (hb.pointer element)
  | byReference => exact hi.bind fun element => build_tracks (hb.byReference element)
  | pinned => exact hi.bind fun element => build_tracks (hb.pinned element)
  | vector => exact hi.bind fun element => build_tracks (hb.vector element)
  | array =>
    exact hi.bind fun element => (read_tracks readsOn_arrayShape).bind fun shape =>
      build_tracks (hb.array element shape)
  | instantiation =>
    refine hi.bind fun generic => (read_tracks Compressed.readsOn_number).bind fun count => ?_
    refine Tracks.ite (fun _ => Tracks.throw _) fun _ => ?_
    exact (repeated_tracks hi count).bind fun arguments =>
      build_tracks (hb.instantiation generic arguments)
  | typeParameter =>
    exact (read_tracks Compressed.readsOn_number).bind fun index =>
      build_tracks (hb.typeParameter index)
  | methodParameter =>
    exact (read_tracks Compressed.readsOn_number).bind fun index =>
      build_tracks (hb.methodParameter index)
  | modifier required =>
    exact (nominal_tracks hb .unstated).bind fun modifier => hi.bind fun unmodified =>
      build_tracks (hb.modified modifier unmodified required)
  | functionPointer =>
    exact (methodOf_tracks hi).bind fun signature => build_tracks (hb.functionPointer signature)

theorem typeWithin_tracks (hb : builder.Tracks given R builder') (limit : Nat) :
    Decoding.Tracks given unread R (typeWithin builder limit) (typeWithin builder' limit) := by
  induction limit with
  | zero => exact Tracks.throw _
  | succ limit ih =>
    refine (read_tracks Cursor.readsOn_byte).bind fun code => ?_
    split
    · exact Tracks.throw _
    · exact typeFrom_tracks hb ih _

theorem type_tracks (hb : builder.Tracks given R builder') :
    Decoding.Tracks given unread R (type builder) (type builder') :=
  typeWithin_tracks hb maxDepth

theorem method_tracks (hb : builder.Tracks given R builder') :
    Decoding.Tracks given unread R (method builder) (method builder') :=
  methodOf_tracks (type_tracks hb)

theorem fieldType_tracks (hb : builder.Tracks given R builder') :
    Decoding.Tracks given unread R (fieldType builder) (fieldType builder') := by
  refine (read_tracks readsOn_header).bind fun header => ?_
  exact Tracks.ite (fun _ => type_tracks hb) fun _ => Tracks.throw _

end

end Signature

end ApiCensus
