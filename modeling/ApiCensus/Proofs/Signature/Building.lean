/-
  What is kept while something is built from a signature.

  * `TypeBuilder.Keeps`: whatever shape a type has, something is kept when it is built.
  * `Signature.type_keeps`, `method_keeps`, `fieldType_keeps`: then it is kept when a signature
    is read.
-/
import ApiCensus.Proofs.Attempt
import ApiCensus.Signature.Decoder

namespace ApiCensus

open Attempt Signature Signature.Decoding

variable {σ α β : Type} {P : σ → Prop}

/-- Whatever shape a type has, `P` is kept when it is built. -/
structure TypeBuilder.Keeps (P : σ → Prop) (builder : TypeBuilder σ α) : Prop where
  primitive : ∀ type, Attempt.Keeps P (builder.primitive type)
  definition : ∀ token form, Attempt.Keeps P (builder.definition token form)
  reference : ∀ token form, Attempt.Keeps P (builder.reference token form)
  specification : ∀ token form, Attempt.Keeps P (builder.specification token form)
  vector : ∀ element, Attempt.Keeps P (builder.vector element)
  array : ∀ element shape, Attempt.Keeps P (builder.array element shape)
  byReference : ∀ element, Attempt.Keeps P (builder.byReference element)
  pointer : ∀ element, Attempt.Keeps P (builder.pointer element)
  pinned : ∀ element, Attempt.Keeps P (builder.pinned element)
  instantiation : ∀ generic arguments, Attempt.Keeps P (builder.instantiation generic arguments)
  typeParameter : ∀ index, Attempt.Keeps P (builder.typeParameter index)
  methodParameter : ∀ index, Attempt.Keeps P (builder.methodParameter index)
  modified : ∀ modifier unmodified required,
    Attempt.Keeps P (builder.modified modifier unmodified required)
  functionPointer : ∀ signature, Attempt.Keeps P (builder.functionPointer signature)

namespace Signature

/-- Reading and building keep `P` of what is built in. -/
abbrev Decoding.Keeps (P : σ → Prop) (decoding : Decoding σ β) : Prop :=
  Attempt.Keeps (fun place => P place.2) decoding

theorem read_keeps (step : Attempt Cursor β) : Decoding.Keeps P (read step : Decoding σ β) :=
  fun _ h => h

theorem build_keeps {step : Attempt σ β} (h : Attempt.Keeps P step) :
    Decoding.Keeps P (build step) :=
  fun place hp => h place.2 hp

theorem onBytes_keeps {decoding : Decoding σ β} (h : Decoding.Keeps P decoding)
    (data : ByteArray) : Attempt.Keeps P (decoding.onBytes data) :=
  fun state hp => h ({ data }, state) hp

theorem repeated_keeps {step : Decoding σ β} (h : Decoding.Keeps P step) (count : Nat) :
    Decoding.Keeps P (Attempt.repeated step count) := by
  induction count with
  | zero => exact Keeps.pure []
  | succ count ih => exact h.bind fun _ => ih.bind fun _ => Keeps.pure _

theorem nominal_keeps {builder : TypeBuilder σ α} (hb : builder.Keeps P) (form : NominalForm) :
    Decoding.Keeps P (nominal builder form) := by
  refine Keeps.bind (read_keeps _) fun token => ?_
  split
  · exact build_keeps (hb.definition token form)
  · exact build_keeps (hb.reference token form)
  · exact build_keeps (hb.specification token form)
  · exact Keeps.throw _

/-- A parameter and those behind it. -/
theorem parameter_cons_keeps {type : Decoding σ α} (h : Decoding.Keeps P type) {index left : Nat}
    {mark : Option Nat} (hr : Decoding.Keeps P (parameters type index mark left)) :
    Decoding.Keeps P (do
      let parameter ← type
      let (rest, mark) ← parameters type index mark left
      pure (parameter :: rest, mark)) :=
  h.bind fun _ => hr.bind fun _ => Keeps.pure _

theorem parameters_keeps {type : Decoding σ α} (h : Decoding.Keeps P type) (index : Nat)
    (mark : Option Nat) (left : Nat) : Decoding.Keeps P (parameters type index mark left) := by
  induction left generalizing index mark with
  | zero => exact Keeps.pure _
  | succ left ih =>
    refine Keeps.bind (read_keeps _) fun next => ?_
    refine Keeps.ite (fun _ => Keeps.ite (fun _ => ?_) fun _ => ?_) fun _ => ?_
    · exact Keeps.bind (Keeps.throw _) fun mark => parameter_cons_keeps h (ih (index + 1) mark)
    · refine Keeps.bind (read_keeps _) fun _ => Keeps.bind (Keeps.pure _) fun mark => ?_
      exact parameter_cons_keeps h (ih (index + 1) mark)
    · exact Keeps.bind (Keeps.pure _) fun mark => parameter_cons_keeps h (ih (index + 1) mark)

/-- What follows the header of a method signature and the count of generic parameters. -/
theorem method_rest_keeps {type : Decoding σ α} (h : Decoding.Keeps P type) (header : Header)
    (genericCount : Nat) :
    Decoding.Keeps P (do
      let count ← read Compressed.number
      let returnType ← type
      let (parameters, sentinel) ← parameters type 0 none count
      pure { header, genericCount, requiredCount := sentinel.getD count, returnType, parameters :
        MethodSignature α }) := by
  refine Keeps.bind (read_keeps _) fun count => h.bind fun returnType => ?_
  exact Keeps.bind (parameters_keeps h 0 none count) fun _ => Keeps.pure _

theorem methodOf_keeps {type : Decoding σ α} (h : Decoding.Keeps P type) :
    Decoding.Keeps P (methodOf type) := by
  refine Keeps.bind (read_keeps _) fun header => ?_
  refine Keeps.ite (fun _ => Keeps.ite (fun _ => ?_) fun _ => ?_) fun _ => Keeps.throw _
  · exact Keeps.bind (read_keeps _) fun genericCount => method_rest_keeps h header genericCount
  · exact Keeps.bind (Keeps.pure 0) fun genericCount => method_rest_keeps h header genericCount

section
variable {builder : TypeBuilder σ α}

theorem typeFrom_keeps (hb : builder.Keeps P) {inner : Decoding σ α}
    (hi : Decoding.Keeps P inner) (element : Element) :
    Decoding.Keeps P (typeFrom builder inner element) := by
  cases element with
  | primitive type => exact build_keeps (hb.primitive type)
  | classType => exact nominal_keeps hb .classType
  | valueType => exact nominal_keeps hb .valueType
  | pointer => exact hi.bind fun element => build_keeps (hb.pointer element)
  | byReference => exact hi.bind fun element => build_keeps (hb.byReference element)
  | pinned => exact hi.bind fun element => build_keeps (hb.pinned element)
  | vector => exact hi.bind fun element => build_keeps (hb.vector element)
  | array =>
    exact hi.bind fun element => Keeps.bind (read_keeps _) fun shape =>
      build_keeps (hb.array element shape)
  | instantiation =>
    refine hi.bind fun generic => Keeps.bind (read_keeps _) fun count => ?_
    refine Keeps.ite (fun _ => Keeps.throw _) fun _ => ?_
    exact (repeated_keeps hi count).bind fun arguments =>
      build_keeps (hb.instantiation generic arguments)
  | typeParameter =>
    exact Keeps.bind (read_keeps _) fun index => build_keeps (hb.typeParameter index)
  | methodParameter =>
    exact Keeps.bind (read_keeps _) fun index => build_keeps (hb.methodParameter index)
  | modifier required =>
    exact (nominal_keeps hb .unstated).bind fun modifier => hi.bind fun unmodified =>
      build_keeps (hb.modified modifier unmodified required)
  | functionPointer =>
    exact (methodOf_keeps hi).bind fun signature => build_keeps (hb.functionPointer signature)

theorem typeWithin_keeps (hb : builder.Keeps P) (limit : Nat) :
    Decoding.Keeps P (typeWithin builder limit) := by
  induction limit with
  | zero => exact Keeps.throw _
  | succ limit ih =>
    refine Keeps.bind (read_keeps _) fun code => ?_
    split
    · exact Keeps.throw _
    · exact typeFrom_keeps hb ih _

theorem type_keeps (hb : builder.Keeps P) : Decoding.Keeps P (type builder) :=
  typeWithin_keeps hb maxDepth

theorem method_keeps (hb : builder.Keeps P) : Decoding.Keeps P (method builder) :=
  methodOf_keeps (type_keeps hb)

theorem fieldType_keeps (hb : builder.Keeps P) : Decoding.Keeps P (fieldType builder) := by
  refine Keeps.bind (read_keeps _) fun header => ?_
  exact Keeps.ite (fun _ => type_keeps hb) fun _ => Keeps.throw _

end

end Signature

end ApiCensus
