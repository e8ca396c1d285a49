/-
  The first byte of a signature.

  * `Signature.Kind`: what the signature describes, from the low four bits.
  * `Signature.Header`: the byte, with its kind and its flags.
-/

namespace ApiCensus.Signature

/-- What a signature describes. -/
inductive Kind where
  /-- A method, with any calling convention. -/
  | method
  | field
  | localVariables
  | property
  /-- The arguments of a generic method. -/
  | methodSpecification
  /-- None of these. -/
  | unknown
  deriving Repr, DecidableEq, Inhabited

/-- The name of a kind. -/
def Kind.name : Kind → String
  | .method => "Method"
  | .field => "Field"
  | .localVariables => "LocalVariables"
  | .property => "Property"
  | .methodSpecification => "MethodSpecification"
  | .unknown => "Unknown"

/-- The first byte of a signature. -/
structure Header where
  byte : UInt8
  deriving Repr, DecidableEq, Inhabited

namespace Header

/-- The low four bits, which hold the kind or the calling convention. -/
def convention (header : Header) : Nat :=
  header.byte.toNat % 0x10

/-- What the signature describes. -/
def kind (header : Header) : Kind :=
  match header.convention with
  | 0 | 1 | 2 | 3 | 4 | 5 => .method
  | 6 => .field
  | 7 => .localVariables
  | 8 => .property
  | 10 => .methodSpecification
  | _ => .unknown

theorem kind_eq_field_iff {header : Header} : header.kind = .field ↔ header.convention = 6 := by
  rw [kind]
  split <;> simp_all

/-- A count of generic parameters follows. -/
def isGeneric (header : Header) : Bool :=
  header.byte.toNat / 0x10 % 2 == 1

/-- The method or property has a `this` argument. -/
def hasThis (header : Header) : Bool :=
  header.byte.toNat / 0x20 % 2 == 1

/-- The method takes a variable number of arguments. -/
def isVararg (header : Header) : Bool :=
  header.convention == 5

end Header

end ApiCensus.Signature
