/-
  The types that signatures describe, and what can be built from them.

  * `SignatureType`: the tree of a type.
  * `MethodSignature`: a method or property signature over any kind of type.
  * `TypeBuilder`: what is made of each shape of type; `TypeBuilder.tree` makes the tree.
-/
import ApiCensus.Fault
import ApiCensus.Signature.Primitive

namespace ApiCensus

/-- The dimensions of an array. -/
structure ArrayShape where
  /-- The number of dimensions. -/
  rank : Nat
  /-- The sizes of the leading dimensions. -/
  sizes : List Nat
  /-- The lower bounds of the leading dimensions. -/
  lowerBounds : List Int
  deriving Repr, DecidableEq, Inhabited

/-- A method or property signature. -/
structure MethodSignature (α : Type) where
  header : Signature.Header
  genericCount : Nat
  /-- The number of parameters that every call has. -/
  requiredCount : Nat
  returnType : α
  /-- The types of the parameters, the variable ones included. -/
  parameters : List α
  deriving Repr, DecidableEq, Inhabited

/-- How a signature introduces a named type. -/
inductive NominalForm where
  | classType
  | valueType
  /-- As a modifier, which does not tell. -/
  | unstated
  deriving Repr, DecidableEq, Inhabited

/-- The byte of a form, 0 if there is none. -/
def NominalForm.code : NominalForm → Nat
  | .classType => 0x12
  | .valueType => 0x11
  | .unstated => 0

/-- The tree of a type in a signature. -/
inductive SignatureType where
  /-- A type without parts. -/
  | primitive (type : Primitive)
  /-- A type of this module. -/
  | definition (token : Token) (form : NominalForm)
  /-- A type of another module. -/
  | reference (token : Token) (form : NominalForm)
  /-- A type that another signature describes. -/
  | specification (token : Token) (form : NominalForm)
  /-- An array of one dimension. -/
  | vector (element : SignatureType)
  /-- An array of any shape. -/
  | array (element : SignatureType) (shape : ArrayShape)
  /-- A reference. -/
  | byReference (element : SignatureType)
  /-- A pointer. -/
  | pointer (element : SignatureType)
  /-- A pinned local variable. -/
  | pinned (element : SignatureType)
  /-- A generic type with its arguments. -/
  | instantiation (generic : SignatureType) (arguments : List SignatureType)
  /-- A type parameter of the enclosing type. -/
  | typeParameter (index : Nat)
  /-- A type parameter of the enclosing method. -/
  | methodParameter (index : Nat)
  /-- A type under a modifier. -/
  | modified (modifier unmodified : SignatureType) (required : Bool)
  /-- A pointer to a method. -/
  | functionPointer (signature : MethodSignature SignatureType)
  deriving Repr, Inhabited

/-- What is made of each shape of type, from what was made of its parts. Each step may fail
    and may change a state. -/
structure TypeBuilder (σ α : Type) where
  primitive (type : Primitive) : Attempt σ α
  definition (token : Token) (form : NominalForm) : Attempt σ α
  reference (token : Token) (form : NominalForm) : Attempt σ α
  specification (token : Token) (form : NominalForm) : Attempt σ α
  vector (element : α) : Attempt σ α
  array (element : α) (shape : ArrayShape) : Attempt σ α
  byReference (element : α) : Attempt σ α
  pointer (element : α) : Attempt σ α
  pinned (element : α) : Attempt σ α
  instantiation (generic : α) (arguments : List α) : Attempt σ α
  typeParameter (index : Nat) : Attempt σ α
  methodParameter (index : Nat) : Attempt σ α
  modified (modifier unmodified : α) (required : Bool) : Attempt σ α
  functionPointer (signature : MethodSignature α) : Attempt σ α

/-- Makes the tree. -/
def TypeBuilder.tree {σ : Type} : TypeBuilder σ SignatureType where
  primitive type := pure (.primitive type)
  definition token form := pure (.definition token form)
  reference token form := pure (.reference token form)
  specification token form := pure (.specification token form)
  vector element := pure (.vector element)
  array element shape := pure (.array element shape)
  byReference element := pure (.byReference element)
  pointer element := pure (.pointer element)
  pinned element := pure (.pinned element)
  instantiation generic arguments := pure (.instantiation generic arguments)
  typeParameter index := pure (.typeParameter index)
  methodParameter index := pure (.methodParameter index)
  modified modifier unmodified required := pure (.modified modifier unmodified required)
  functionPointer signature := pure (.functionPointer signature)

end ApiCensus
