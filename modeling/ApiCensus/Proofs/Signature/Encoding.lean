/-
  The bytes of a type in a signature (ECMA-335, II.23.2).

  * `SignatureType.encode`: the bytes of a tree.
  * `SignatureType.WellFormed`: the trees that have bytes: handles lie in the tables of types,
    counts, sizes and indexes have a compressed form.
  * `SignatureType.depth`: how many visits of types lie inside each other while it is read.
-/
import ApiCensus.Proofs.Bytes.Compressed
import ApiCensus.Signature.Decoder

namespace ApiCensus

open Signature

/-! ## Bytes -/

/-- The byte before a token; a modifier has none. -/
def NominalForm.encode : NominalForm → List UInt8
  | .classType => [Element.classType.code]
  | .valueType => [Element.valueType.code]
  | .unstated => []

/-- The bytes of the dimensions of an array. -/
def ArrayShape.encode (shape : ArrayShape) : List UInt8 :=
  Compressed.encode shape.rank
    ++ (Compressed.encode shape.sizes.length ++ (shape.sizes.flatMap Compressed.encode
    ++ (Compressed.encode shape.lowerBounds.length
    ++ shape.lowerBounds.flatMap Compressed.encodeSigned)))

/-- The parameters of a method, one after the other. The mark stands before the first one that
    a call may leave out. -/
def Signature.encodeParameters (required : Nat) (parameters : List (List UInt8)) : List UInt8 :=
  (parameters.take required).flatten
    ++ (if required < parameters.length then [Element.sentinel] else [])
    ++ (parameters.drop required).flatten

/-- The header of a method signature and its counts. -/
def MethodSignature.encodeHeader {α : Type} (signature : MethodSignature α) : List UInt8 :=
  signature.header.byte
    :: ((if signature.header.isGeneric then Compressed.encode signature.genericCount else [])
    ++ Compressed.encode signature.parameters.length)

namespace SignatureType

mutual

/-- The bytes of a type. -/
def encode : SignatureType → List UInt8
  | .primitive type => [type.code]
  | .definition token form => form.encode ++ Compressed.encodeToken .typeDef token.row
  | .reference token form => form.encode ++ Compressed.encodeToken .typeRef token.row
  | .specification token form => form.encode ++ Compressed.encodeToken .typeSpec token.row
  | .vector element => Element.vector.code :: encode element
  | .array element shape => Element.array.code :: (encode element ++ shape.encode)
  | .byReference element => Element.byReference.code :: encode element
  | .pointer element => Element.pointer.code :: encode element
  | .pinned element => Element.pinned.code :: encode element
  | .instantiation generic arguments =>
    Element.instantiation.code
      :: (encode generic ++ (Compressed.encode arguments.length ++ (encodeEach arguments).flatten))
  | .typeParameter index => Element.typeParameter.code :: Compressed.encode index
  | .methodParameter index => Element.methodParameter.code :: Compressed.encode index
  | .modified modifier unmodified required =>
    (Element.modifier required).code :: (encode modifier ++ encode unmodified)
  | .functionPointer signature => Element.functionPointer.code :: encodeMethod signature

/-- The bytes of several types, each for itself. -/
def encodeEach : List SignatureType → List (List UInt8)
  | [] => []
  | tree :: trees => encode tree :: encodeEach trees

/-- The bytes of a method signature. -/
def encodeMethod : MethodSignature SignatureType → List UInt8
  | ⟨header, genericCount, requiredCount, returnType, parameters⟩ =>
    MethodSignature.encodeHeader ⟨header, genericCount, requiredCount, returnType, parameters⟩
      ++ (encode returnType ++ encodeParameters requiredCount (encodeEach parameters))

end

@[simp] theorem encodeEach_eq_map (trees : List SignatureType) :
    encodeEach trees = trees.map encode := by
  induction trees with
  | nil => rfl
  | cons tree trees ih => rw [encodeEach, ih, List.map_cons]

/-! ## Depth -/

mutual

/-- How many visits of types lie inside each other, the visit of this one included. The type of
    a modifier is a bare token and no visit. -/
def depth : SignatureType → Nat
  | .primitive _ | .definition .. | .reference .. | .specification .. => 1
  | .typeParameter _ | .methodParameter _ => 1
  | .vector element | .byReference element | .pointer element | .pinned element =>
    depth element + 1
  | .array element _ => depth element + 1
  | .modified _ unmodified _ => depth unmodified + 1
  | .instantiation generic arguments => max (depth generic) (depthOfAll arguments) + 1
  | .functionPointer signature => depthOfMethod signature + 1

/-- The depth of the deepest of several types. -/
def depthOfAll : List SignatureType → Nat
  | [] => 0
  | tree :: trees => max (depth tree) (depthOfAll trees)

/-- The depth of the deepest type in a method signature. -/
def depthOfMethod : MethodSignature SignatureType → Nat
  | ⟨_, _, _, returnType, parameters⟩ => max (depth returnType) (depthOfAll parameters)

end

theorem depth_pos (tree : SignatureType) : 0 < tree.depth := by
  cases tree <;> simp [depth]

theorem depthOfAll_le {trees : List SignatureType} {limit : Nat} :
    depthOfAll trees ≤ limit ↔ ∀ tree ∈ trees, tree.depth ≤ limit := by
  induction trees with
  | nil => simp [depthOfAll]
  | cons tree trees ih => simp only [depthOfAll, Nat.max_le, List.forall_mem_cons, ih]

/-! ## Trees that have bytes -/

end SignatureType

/-- A number that has a compressed form. -/
def Compressed.IsNumber (n : Nat) : Prop :=
  n < Compressed.bound

instance (n : Nat) : Decidable (Compressed.IsNumber n) :=
  inferInstanceAs (Decidable (n < Compressed.bound))

/-- Dimensions that have bytes: at least one of them, and none with two sizes or two lower
    bounds. -/
structure ArrayShape.WellFormed (shape : ArrayShape) : Prop where
  rank_pos : 0 < shape.rank
  rank : Compressed.IsNumber shape.rank
  sizes_le : shape.sizes.length ≤ shape.rank
  sizes : ∀ size ∈ shape.sizes, Compressed.IsNumber size
  lowerBounds_le : shape.lowerBounds.length ≤ shape.rank
  lowerBounds : ∀ bound ∈ shape.lowerBounds, Compressed.IsSigned bound

instance (shape : ArrayShape) : Decidable shape.WellFormed :=
  decidable_of_iff
    (0 < shape.rank ∧ Compressed.IsNumber shape.rank ∧ shape.sizes.length ≤ shape.rank ∧
      (∀ size ∈ shape.sizes, Compressed.IsNumber size) ∧
      shape.lowerBounds.length ≤ shape.rank ∧
      ∀ bound ∈ shape.lowerBounds, Compressed.IsSigned bound)
    ⟨fun ⟨rank_pos, rank, sizes_le, sizes, lowerBounds_le, lowerBounds⟩ =>
      ⟨rank_pos, rank, sizes_le, sizes, lowerBounds_le, lowerBounds⟩,
      fun h => ⟨h.rank_pos, h.rank, h.sizes_le, h.sizes, h.lowerBounds_le, h.lowerBounds⟩⟩

/-- Counts that fit the header of a method signature. A signature that is not generic has no
    generic parameters. -/
structure MethodSignature.CountsFit {α : Type} (signature : MethodSignature α) : Prop where
  kind : signature.header.kind = .method ∨ signature.header.kind = .property
  generic : signature.header.isGeneric = true → Compressed.IsNumber signature.genericCount
  plain : signature.header.isGeneric = false → signature.genericCount = 0
  parameters : Compressed.IsNumber signature.parameters.length
  required : signature.requiredCount ≤ signature.parameters.length

instance {α : Type} (signature : MethodSignature α) : Decidable signature.CountsFit :=
  decidable_of_iff
    ((signature.header.kind = .method ∨ signature.header.kind = .property) ∧
      (signature.header.isGeneric = true → Compressed.IsNumber signature.genericCount) ∧
      (signature.header.isGeneric = false → signature.genericCount = 0) ∧
      Compressed.IsNumber signature.parameters.length ∧
      signature.requiredCount ≤ signature.parameters.length)
    ⟨fun ⟨kind, generic, plain, parameters, required⟩ =>
      ⟨kind, generic, plain, parameters, required⟩,
      fun h => ⟨h.kind, h.generic, h.plain, h.parameters, h.required⟩⟩

namespace SignatureType

/-- A token of one of the tables of types in a given form. -/
def IsNominal (form : NominalForm) : SignatureType → Prop
  | .definition token form' => form' = form ∧ token.isIn .typeDef
  | .reference token form' => form' = form ∧ token.isIn .typeRef
  | .specification token form' => form' = form ∧ token.isIn .typeSpec
  | _ => False

instance decidableNominal (form : NominalForm) (tree : SignatureType) :
    Decidable (IsNominal form tree) := by
  unfold IsNominal
  split <;> infer_instance

mutual

/-- The tree has bytes. -/
def WellFormed : SignatureType → Prop
  | .primitive _ => True
  | .definition token form => form ≠ .unstated ∧ token.isIn .typeDef
  | .reference token form => form ≠ .unstated ∧ token.isIn .typeRef
  | .specification token form => form ≠ .unstated ∧ token.isIn .typeSpec
  | .vector element | .byReference element | .pointer element | .pinned element =>
    WellFormed element
  | .array element shape => WellFormed element ∧ shape.WellFormed
  | .instantiation generic arguments =>
    WellFormed generic ∧ arguments ≠ [] ∧ Compressed.IsNumber arguments.length ∧
      AllWellFormed arguments
  | .typeParameter index | .methodParameter index => Compressed.IsNumber index
  | .modified modifier unmodified _ => IsNominal .unstated modifier ∧ WellFormed unmodified
  | .functionPointer signature => MethodWellFormed signature

/-- Each of several trees has bytes. -/
def AllWellFormed : List SignatureType → Prop
  | [] => True
  | tree :: trees => WellFormed tree ∧ AllWellFormed trees

/-- The signature of a method has bytes. -/
def MethodWellFormed : MethodSignature SignatureType → Prop
  | ⟨header, genericCount, requiredCount, returnType, parameters⟩ =>
    MethodSignature.CountsFit ⟨header, genericCount, requiredCount, returnType, parameters⟩ ∧
      WellFormed returnType ∧ AllWellFormed parameters

end

mutual

instance decidableWellFormed : (tree : SignatureType) → Decidable tree.WellFormed
  | .primitive _ => inferInstanceAs (Decidable True)
  | .definition token form => inferInstanceAs (Decidable (form ≠ .unstated ∧ token.isIn .typeDef))
  | .reference token form => inferInstanceAs (Decidable (form ≠ .unstated ∧ token.isIn .typeRef))
  | .specification token form =>
    inferInstanceAs (Decidable (form ≠ .unstated ∧ token.isIn .typeSpec))
  | .vector element | .byReference element | .pointer element | .pinned element =>
    decidableWellFormed element
  | .array element shape =>
    have := decidableWellFormed element
    inferInstanceAs (Decidable (element.WellFormed ∧ shape.WellFormed))
  | .instantiation generic arguments =>
    have := decidableWellFormed generic
    have := decidableAllWellFormed arguments
    inferInstanceAs (Decidable (generic.WellFormed ∧ arguments ≠ [] ∧ _ ∧ AllWellFormed arguments))
  | .typeParameter index | .methodParameter index =>
    inferInstanceAs (Decidable (Compressed.IsNumber index))
  | .modified modifier unmodified _ =>
    have := decidableWellFormed unmodified
    inferInstanceAs (Decidable (IsNominal .unstated modifier ∧ unmodified.WellFormed))
  | .functionPointer signature => decidableMethodWellFormed signature

instance decidableAllWellFormed : (trees : List SignatureType) → Decidable (AllWellFormed trees)
  | [] => inferInstanceAs (Decidable True)
  | tree :: trees =>
    have := decidableWellFormed tree
    have := decidableAllWellFormed trees
    inferInstanceAs (Decidable (tree.WellFormed ∧ AllWellFormed trees))

instance decidableMethodWellFormed :
    (signature : MethodSignature SignatureType) → Decidable (MethodWellFormed signature)
  | ⟨_, _, _, returnType, parameters⟩ =>
    have := decidableWellFormed returnType
    have := decidableAllWellFormed parameters
    inferInstanceAs (Decidable (_ ∧ returnType.WellFormed ∧ AllWellFormed parameters))

end

theorem allWellFormed_iff {trees : List SignatureType} :
    AllWellFormed trees ↔ ∀ tree ∈ trees, tree.WellFormed := by
  induction trees with
  | nil => simp [AllWellFormed]
  | cons tree trees ih => simp only [AllWellFormed, List.forall_mem_cons, ih]

end SignatureType

end ApiCensus
