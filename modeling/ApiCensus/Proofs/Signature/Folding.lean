/-
  Reading a signature is a fold of its tree.

  * `SignatureType.fold`: the steps of a builder on a tree, the parts of a type before the type
    and from left to right.
  * `Decoding.Follows`: a reading runs as steps that read nothing.
  * `Signature.follows_fold`: with any builder, a signature is read as its tree is folded.
-/
import ApiCensus.Proofs.Attempt
import ApiCensus.Signature.Decoder
import ApiCensus.Signature.Plain

namespace ApiCensus

open Attempt Signature Signature.Decoding

variable {σ α β γ : Type}

/-! ## The fold -/

namespace SignatureType

mutual

/-- The steps of a builder on a tree. -/
def fold (builder : TypeBuilder σ α) : SignatureType → Attempt σ α
  | .primitive type => builder.primitive type
  | .definition token form => builder.definition token form
  | .reference token form => builder.reference token form
  | .specification token form => builder.specification token form
  | .vector element => do
    let element ← fold builder element
    builder.vector element
  | .array element shape => do
    let element ← fold builder element
    builder.array element shape
  | .byReference element => do
    let element ← fold builder element
    builder.byReference element
  | .pointer element => do
    let element ← fold builder element
    builder.pointer element
  | .pinned element => do
    let element ← fold builder element
    builder.pinned element
  | .instantiation generic arguments => do
    let generic ← fold builder generic
    let arguments ← foldEach builder arguments
    builder.instantiation generic arguments
  | .typeParameter index => builder.typeParameter index
  | .methodParameter index => builder.methodParameter index
  | .modified modifier unmodified required => do
    let modifier ← fold builder modifier
    let unmodified ← fold builder unmodified
    builder.modified modifier unmodified required
  | .functionPointer signature => do
    let signature ← foldMethod builder signature
    builder.functionPointer signature

/-- The steps of a builder on several trees, one after the other. -/
def foldEach (builder : TypeBuilder σ α) : List SignatureType → Attempt σ (List α)
  | [] => pure []
  | tree :: trees => do
    let first ← fold builder tree
    let rest ← foldEach builder trees
    pure (first :: rest)

/-- The steps of a builder on a method signature. -/
def foldMethod (builder : TypeBuilder σ α) :
    MethodSignature SignatureType → Attempt σ (MethodSignature α)
  | ⟨header, genericCount, requiredCount, returnType, parameters⟩ => do
    let returnType ← fold builder returnType
    let parameters ← foldEach builder parameters
    pure { header, genericCount, requiredCount, returnType, parameters }

end

end SignatureType

/-! ## Readings that run as steps -/

namespace Signature.Decoding

/-- From `start` on, the reading has the answer or the fault of the steps and leaves what is built
    as they do; if they answer, it ends at `stop`. -/
def Follows (decoding : Decoding σ β) (start stop : Cursor) (steps : Attempt σ β) : Prop :=
  ∀ state, ∃ place, decoding (start, state) = ((steps state).1, (place, (steps state).2)) ∧
    ∀ b, (steps state).1 = .ok b → place = stop

theorem follows_pure (b : β) (cursor : Cursor) :
    Follows (pure b : Decoding σ β) cursor cursor (pure b) :=
  fun _ => ⟨cursor, rfl, fun _ _ => rfl⟩

theorem follows_build (step : Attempt σ β) (cursor : Cursor) :
    Follows (build step) cursor cursor step :=
  fun _ => ⟨cursor, rfl, fun _ _ => rfl⟩

theorem Follows.bind {decoding : Decoding σ β} {next : β → Decoding σ γ} {steps : Attempt σ β}
    {others : β → Attempt σ γ} {start mid stop : Cursor} (hd : decoding.Follows start mid steps)
    (hn : ∀ b, (next b).Follows mid stop (others b)) :
    Follows (decoding >>= next) start stop (steps >>= others) := by
  intro state
  obtain ⟨place, hrun, hplace⟩ := hd state
  rcases hsteps : steps state with ⟨fault | b, built⟩ <;> rw [hsteps] at hrun hplace
  · refine ⟨place, ?_, ?_⟩ <;> rw [bind_apply_error hsteps]
    · exact bind_apply_error hrun
    · exact fun _ h => absurd h (by simp)
  · obtain rfl := hplace b rfl
    rw [bind_apply_ok hrun, bind_apply_ok hsteps]
    exact hn b built

/-- What is read without building is known before the steps. -/
theorem Follows.read_bind {step : Attempt Cursor β} {next : β → Decoding σ γ}
    {steps : Attempt σ γ} {start mid stop : Cursor} {b : β} (hs : step start = (.ok b, mid))
    (hn : (next b).Follows mid stop steps) : Follows (read step >>= next) start stop steps := by
  intro state
  have hread : (read step : Decoding σ β) (start, state) = (.ok b, (mid, state)) := by
    rw [read, onPart, hs]
  rw [bind_apply_ok hread]
  exact hn state

/-- A reading that builds trees, and one that runs as the fold of each of them. -/
def Folds (trees : Decoding Unit SignatureType) (builder : TypeBuilder σ α)
    (decoding : Decoding σ α) : Prop :=
  ∀ start stop tree, trees start = (.ok tree, stop) →
    decoding.Follows start.1 stop.1 (tree.fold builder)

end Signature.Decoding

namespace Signature

variable {start stop : Cursor × Unit} {builder : TypeBuilder σ α}
  {trees : Decoding Unit SignatureType} {inner : Decoding σ α}

theorem read_eq_ok {step : Attempt Cursor β} {b : β}
    (h : (read step : Decoding Unit β) start = (.ok b, stop)) :
    step start.1 = (.ok b, stop.1) := by
  obtain ⟨hresult, hplace⟩ := Prod.mk.inj h
  exact Prod.ext hresult (congrArg Prod.fst hplace)

theorem build_pure_eq_ok {b b' : β} (h : build (pure b) start = (.ok b', stop)) :
    b' = b ∧ stop.1 = start.1 := by
  obtain ⟨hresult, hplace⟩ := Prod.mk.inj h
  exact ⟨(Except.ok.inj hresult).symm, (congrArg Prod.fst hplace).symm⟩

/-- The last step of a type, when its parts have been read. -/
theorem follows_built {tree built : SignatureType} {step : Attempt σ α}
    (h : build (pure tree) start = (.ok built, stop)) (hstep : tree.fold builder = step) :
    Follows (build step) start.1 stop.1 (built.fold builder) := by
  obtain ⟨rfl, hstop⟩ := build_pure_eq_ok h
  rw [hstop, hstep]
  exact follows_build step _

theorem follows_nominal {form : NominalForm} {tree : SignatureType}
    (h : nominal TypeBuilder.tree form start = (.ok tree, stop)) :
    Follows (nominal builder form) start.1 stop.1 (tree.fold builder) := by
  obtain ⟨token, mid, hread, h⟩ := bind_eq_ok h
  refine Follows.read_bind (read_eq_ok hread) ?_
  generalize token.table? = table at h ⊢
  split at h
  · exact follows_built h (by rw [SignatureType.fold])
  · exact follows_built h (by rw [SignatureType.fold])
  · exact follows_built h (by rw [SignatureType.fold])
  · exact absurd (congrArg Prod.fst h) (by simp)

theorem follows_repeated (hi : Folds trees builder inner) {count : Nat}
    {list : List SignatureType} (h : repeated trees count start = (.ok list, stop)) :
    Follows (repeated inner count) start.1 stop.1 (SignatureType.foldEach builder list) := by
  induction count generalizing start list with
  | zero =>
    obtain ⟨rfl, rfl⟩ := pure_eq_ok h
    exact follows_pure [] _
  | succ count ih =>
    obtain ⟨first, mid, hfirst, h⟩ := bind_eq_ok h
    obtain ⟨rest, mid', hrest, h⟩ := bind_eq_ok h
    obtain ⟨rfl, rfl⟩ := pure_eq_ok h
    exact (hi _ _ _ hfirst).bind fun _ => (ih hrest).bind fun _ => follows_pure _ _

/-- A parameter and those behind it. -/
theorem follows_parameter_cons (hi : Folds trees builder inner) {index left : Nat}
    {mark sentinel : Option Nat} {list : List SignatureType}
    (ih : ∀ {start : Cursor × Unit} {list : List SignatureType},
      parameters trees index mark left start = (.ok (list, sentinel), stop) →
      Follows (parameters inner index mark left) start.1 stop.1
        (SignatureType.foldEach builder list >>= fun list => pure (list, sentinel)))
    (h : (do
      let parameter ← trees
      let (rest, mark) ← parameters trees index mark left
      pure (parameter :: rest, mark) : Decoding Unit _) start = (.ok (list, sentinel), stop)) :
    Follows (do
      let parameter ← inner
      let (rest, mark) ← parameters inner index mark left
      pure (parameter :: rest, mark)) start.1 stop.1
        (SignatureType.foldEach builder list >>= fun list => pure (list, sentinel)) := by
  obtain ⟨first, mid, hfirst, h⟩ := bind_eq_ok h
  obtain ⟨⟨rest, mark'⟩, mid', hrest, h⟩ := bind_eq_ok h
  obtain ⟨hlist, rfl⟩ := pure_eq_ok h
  obtain ⟨rfl, rfl⟩ := Prod.mk.inj hlist
  rw [SignatureType.foldEach, bind_assoc]
  refine (hi _ _ _ hfirst).bind fun first => ?_
  have hcons := (ih hrest).bind fun result => follows_pure (first :: result.1, result.2) _
  simp only [bind_assoc, pure_bind] at hcons ⊢
  exact hcons

theorem follows_parameters (hi : Folds trees builder inner) {index left : Nat}
    {mark sentinel : Option Nat} {list : List SignatureType}
    (h : parameters trees index mark left start = (.ok (list, sentinel), stop)) :
    Follows (parameters inner index mark left) start.1 stop.1
      (SignatureType.foldEach builder list >>= fun list => pure (list, sentinel)) := by
  induction left generalizing index mark start list with
  | zero =>
    obtain ⟨hlist, rfl⟩ := pure_eq_ok h
    obtain ⟨rfl, rfl⟩ := Prod.mk.inj hlist
    exact follows_pure _ _
  | succ left ih =>
    obtain ⟨next, mid, hpeek, h⟩ := bind_eq_ok h
    refine Follows.read_bind (read_eq_ok hpeek) ?_
    split at h
    · rename_i hmark
      rw [if_pos hmark]
      split at h
      · obtain ⟨_, _, hfail, -⟩ := bind_eq_ok h
        exact absurd (congrArg Prod.fst hfail) (by simp)
      · rename_i hnone
        obtain ⟨_, mid', hadvance, h⟩ := bind_eq_ok h
        rw [if_neg hnone]
        exact Follows.read_bind (read_eq_ok hadvance) (follows_parameter_cons hi ih h)
    · rename_i hmark
      rw [if_neg hmark]
      exact follows_parameter_cons hi ih h

/-- What follows the header of a method signature and the count of generic parameters. -/
theorem follows_method_rest (hi : Folds trees builder inner) {header : Header}
    {genericCount : Nat} {signature : MethodSignature SignatureType}
    (h : (do
      let count ← read Compressed.number
      let returnType ← trees
      let (parameters, sentinel) ← parameters trees 0 none count
      pure { header, genericCount, requiredCount := sentinel.getD count, returnType, parameters } :
        Decoding Unit _) start = (.ok signature, stop)) :
    Follows (do
      let count ← read Compressed.number
      let returnType ← inner
      let (parameters, sentinel) ← parameters inner 0 none count
      pure { header, genericCount, requiredCount := sentinel.getD count, returnType, parameters })
        start.1 stop.1 (SignatureType.foldMethod builder signature) := by
  obtain ⟨count, mid, hcount, h⟩ := bind_eq_ok h
  obtain ⟨returnType, mid', hreturn, h⟩ := bind_eq_ok h
  obtain ⟨⟨list, sentinel⟩, mid'', hlist, h⟩ := bind_eq_ok h
  obtain ⟨rfl, rfl⟩ := pure_eq_ok h
  refine Follows.read_bind (read_eq_ok hcount) ((hi _ _ _ hreturn).bind fun returnType => ?_)
  have hrest := (follows_parameters hi hlist).bind fun result =>
    follows_pure
      (MethodSignature.mk header genericCount (result.2.getD count) returnType result.1) _
  simp only [bind_assoc, pure_bind] at hrest
  exact hrest

theorem follows_methodOf (hi : Folds trees builder inner)
    {signature : MethodSignature SignatureType}
    (h : methodOf trees start = (.ok signature, stop)) :
    Follows (methodOf inner) start.1 stop.1 (SignatureType.foldMethod builder signature) := by
  obtain ⟨header, mid, hheader, h⟩ := bind_eq_ok h
  refine Follows.read_bind (read_eq_ok hheader) ?_
  split at h
  · rename_i hkind
    rw [if_pos hkind]
    split at h
    · rename_i hgeneric
      obtain ⟨genericCount, mid', hcount, h⟩ := bind_eq_ok h
      rw [if_pos hgeneric]
      exact Follows.read_bind (read_eq_ok hcount) (follows_method_rest hi h)
    · rename_i hgeneric
      rw [if_neg hgeneric]
      exact follows_method_rest hi h
  · exact absurd (congrArg Prod.fst h) (by simp)

/-- A type around one part. -/
theorem folds_around (hi : Folds trees builder inner) {shape : SignatureType → SignatureType}
    {step : α → Attempt σ α}
    (hstep : ∀ tree, (shape tree).fold builder = tree.fold builder >>= step) :
    Folds (do let tree ← trees; build (pure (shape tree))) builder
      (do let part ← inner; build (step part)) := by
  intro start stop tree h
  obtain ⟨part, mid, hpart, h⟩ := bind_eq_ok h
  obtain ⟨rfl, hstop⟩ := build_pure_eq_ok h
  rw [hstop, hstep]
  exact (hi _ _ _ hpart).bind fun _ => follows_build _ _

theorem folds_typeFrom (hi : Folds trees builder inner) (element : Element) :
    Folds (typeFrom TypeBuilder.tree trees element) builder (typeFrom builder inner element) := by
  intro start stop tree h
  cases element with
  | primitive type => exact follows_built h (by rw [SignatureType.fold])
  | classType => exact follows_nominal h
  | valueType => exact follows_nominal h
  | pointer => exact folds_around hi (fun _ => by rw [SignatureType.fold]) _ _ _ h
  | byReference => exact folds_around hi (fun _ => by rw [SignatureType.fold]) _ _ _ h
  | pinned => exact folds_around hi (fun _ => by rw [SignatureType.fold]) _ _ _ h
  | vector => exact folds_around hi (fun _ => by rw [SignatureType.fold]) _ _ _ h
  | array =>
    obtain ⟨element, mid, helement, h⟩ := bind_eq_ok h
    obtain ⟨shape, mid', hshape, h⟩ := bind_eq_ok h
    obtain ⟨rfl, hstop⟩ := build_pure_eq_ok h
    rw [SignatureType.fold, hstop]
    exact (hi _ _ _ helement).bind fun _ =>
      Follows.read_bind (read_eq_ok hshape) (follows_build _ _)
  | instantiation =>
    obtain ⟨generic, mid, hgeneric, h⟩ := bind_eq_ok h
    obtain ⟨count, mid', hcount, h⟩ := bind_eq_ok h
    split at h
    · exact absurd (congrArg Prod.fst h) (by simp)
    · rename_i hzero
      obtain ⟨arguments, mid'', harguments, h⟩ := bind_eq_ok h
      obtain ⟨rfl, hstop⟩ := build_pure_eq_ok h
      rw [SignatureType.fold, hstop]
      refine (hi _ _ _ hgeneric).bind fun _ => Follows.read_bind (read_eq_ok hcount) ?_
      rw [if_neg hzero]
      exact (follows_repeated hi harguments).bind fun _ => follows_build _ _
  | typeParameter =>
    obtain ⟨index, mid, hindex, h⟩ := bind_eq_ok h
    exact Follows.read_bind (read_eq_ok hindex) (follows_built h (by rw [SignatureType.fold]))
  | methodParameter =>
    obtain ⟨index, mid, hindex, h⟩ := bind_eq_ok h
    exact Follows.read_bind (read_eq_ok hindex) (follows_built h (by rw [SignatureType.fold]))
  | modifier required =>
    obtain ⟨modifier, mid, hmodifier, h⟩ := bind_eq_ok h
    obtain ⟨unmodified, mid', hunmodified, h⟩ := bind_eq_ok h
    obtain ⟨rfl, hstop⟩ := build_pure_eq_ok h
    rw [SignatureType.fold, hstop]
    exact (follows_nominal hmodifier).bind fun _ => (hi _ _ _ hunmodified).bind fun _ =>
      follows_build _ _
  | functionPointer =>
    obtain ⟨signature, mid, hsignature, h⟩ := bind_eq_ok h
    obtain ⟨rfl, hstop⟩ := build_pure_eq_ok h
    rw [SignatureType.fold, hstop]
    exact (follows_methodOf hi hsignature).bind fun _ => follows_build _ _

/-- However deep types may nest. -/
theorem folds_typeWithin (builder : TypeBuilder σ α) (limit : Nat) :
    Folds (typeWithin TypeBuilder.tree limit) builder (typeWithin builder limit) := by
  induction limit with
  | zero => exact fun _ _ _ h => absurd (congrArg Prod.fst h) (by simp [typeWithin])
  | succ limit ih =>
    intro start stop tree h
    obtain ⟨code, mid, hcode, h⟩ := bind_eq_ok h
    refine Follows.read_bind (read_eq_ok hcode) ?_
    generalize Element.ofCode? code = found at h ⊢
    cases found with
    | none => exact absurd (congrArg Prod.fst h) (by simp)
    | some element => exact folds_typeFrom ih element _ _ _ h

theorem folds_fieldType (builder : TypeBuilder σ α) :
    Folds (fieldType TypeBuilder.tree) builder (fieldType builder) := by
  intro start stop tree h
  obtain ⟨header, mid, hheader, h⟩ := bind_eq_ok h
  refine Follows.read_bind (read_eq_ok hheader) ?_
  split at h
  · rename_i hkind
    rw [if_pos hkind]
    exact folds_typeWithin builder maxDepth _ _ _ h
  · exact absurd (congrArg Prod.fst h) (by simp)

/-- **With any builder, a signature is read as its tree is folded: the steps of the builder are
    those of the fold, in its order and on what the builder made of the parts, the same bytes are
    read, and the answer is that of the fold. If a step fails, so does the reading, and nothing
    more is built.** -/
theorem follows_fold (builder : TypeBuilder σ α) (start stop : Cursor) :
    (∀ tree, type TypeBuilder.tree (start, ()) = (.ok tree, (stop, ())) →
      (type builder).Follows start stop (tree.fold builder)) ∧
    (∀ signature, method TypeBuilder.tree (start, ()) = (.ok signature, (stop, ())) →
      (method builder).Follows start stop (SignatureType.foldMethod builder signature)) ∧
    ∀ tree, fieldType TypeBuilder.tree (start, ()) = (.ok tree, (stop, ())) →
      (fieldType builder).Follows start stop (tree.fold builder) := by
  refine ⟨fun tree h => ?_, fun signature h => ?_, fun tree h => ?_⟩
  · exact folds_typeWithin builder maxDepth (start, ()) (stop, ()) tree h
  · exact follows_methodOf (folds_typeWithin builder maxDepth) h
  · exact folds_fieldType builder (start, ()) (stop, ()) tree h

/-- An array of lists of numbers. -/
def listArray : ByteArray :=
  ⟨#[0x1D, 0x15, 0x12, 0x05, 0x01, 0x08]⟩

/-- A method that takes a text by reference. -/
def referenceMethod : ByteArray :=
  ⟨#[0x20, 0x01, 0x01, 0x10, 0x0E]⟩

/-- A field that holds a pointer. -/
def pointerField : ByteArray :=
  ⟨#[0x06, 0x0F, 0x01]⟩

/-- The plain text of a type, and the names of the shapes in the order in which they are built;
    there are no generic types. -/
def notingPlain : TypeBuilder (List String) String :=
  { TypeBuilder.plain with
    primitive := fun type => do
      modify (· ++ ["primitive"])
      pure type.name
    reference := fun _ _ => do
      modify (· ++ ["reference"])
      pure "List"
    instantiation := fun _ _ => throw .badImage }

theorem follows_fold_listArray :
    (∃ tree, type TypeBuilder.tree ({ data := listArray }, ()) =
        (.ok tree, ({ data := listArray, pos := 6 }, ())) ∧
      (type TypeBuilder.plain ({ data := listArray }, ())).1 = .ok "ref(0x01000001)<Int32>[]" ∧
      ∃ place, type notingPlain ({ data := listArray }, []) =
        (.error .badImage, (place, ["reference", "primitive"]))) ∧
    (∃ signature, method TypeBuilder.tree ({ data := referenceMethod }, ()) =
        (.ok signature, ({ data := referenceMethod, pos := 5 }, ())) ∧
      ((method notingPlain ({ data := referenceMethod }, [])).2).2 = ["primitive", "primitive"]) ∧
    ∃ tree, fieldType TypeBuilder.tree ({ data := pointerField }, ()) =
        (.ok tree, ({ data := pointerField, pos := 3 }, ())) ∧
      (fieldType TypeBuilder.plain ({ data := pointerField }, ())).1 = .ok "Void*" := by
  have htype : type TypeBuilder.tree ({ data := listArray }, ()) =
      (.ok (.vector (.instantiation (.reference (Token.ofRow .typeRef 1) .classType)
        [.primitive .int32])), ({ data := listArray, pos := 6 }, ())) := rfl
  have hmethod : method TypeBuilder.tree ({ data := referenceMethod }, ()) =
      (.ok { header := ⟨0x20⟩, genericCount := 0, requiredCount := 1,
             returnType := .primitive .void, parameters := [.byReference (.primitive .string)] },
        ({ data := referenceMethod, pos := 5 }, ())) := rfl
  have hfield : fieldType TypeBuilder.tree ({ data := pointerField }, ()) =
      (.ok (.pointer (.primitive .void)), ({ data := pointerField, pos := 3 }, ())) := rfl
  refine ⟨⟨_, htype, ?_, ?_⟩, ⟨_, hmethod, ?_⟩, _, hfield, ?_⟩
  · obtain ⟨_, hrun, -⟩ := (follows_fold TypeBuilder.plain _ _).1 _ htype ()
    rw [hrun]
    rfl
  · obtain ⟨place, hrun, -⟩ := (follows_fold notingPlain _ _).1 _ htype []
    exact ⟨place, hrun⟩
  · obtain ⟨_, hrun, -⟩ := (follows_fold notingPlain _ _).2.1 _ hmethod []
    rw [hrun]
    rfl
  · obtain ⟨_, hrun, -⟩ := (follows_fold TypeBuilder.plain _ _).2.2 _ hfield ()
    rw [hrun]
    rfl

end Signature

end ApiCensus
