/-
  The bytes that begin a type in a signature.

  * `Element`: a primitive type, or one of the ways to make a type from others.
  * `Element.ofCode?_code`: an element is found again by its byte.
-/
import ApiCensus.Signature.Primitive

namespace ApiCensus.Signature

/-- What a type in a signature begins with. -/
inductive Element where
  /-- A type without parts. -/
  | primitive (type : Primitive)
  /-- A pointer; the type pointed to follows. -/
  | pointer
  /-- A reference; the type referred to follows. -/
  | byReference
  /-- A value type; its token follows. -/
  | valueType
  /-- A reference type; its token follows. -/
  | classType
  /-- A type parameter of the enclosing type; its number follows. -/
  | typeParameter
  /-- An array; its element type and its shape follow. -/
  | array
  /-- A generic type with its arguments. -/
  | instantiation
  /-- A pointer to a method; its signature follows. -/
  | functionPointer
  /-- An array of one dimension; its element type follows. -/
  | vector
  /-- A type parameter of the enclosing method; its number follows. -/
  | methodParameter
  /-- A modifier and the type that it modifies. -/
  | modifier (required : Bool)
  /-- A pinned local variable; its type follows. -/
  | pinned
  deriving Repr, DecidableEq, Inhabited

namespace Element

/-- The byte of an element. -/
def code : Element → UInt8
  | .primitive type => type.code
  | .pointer => 0x0F
  | .byReference => 0x10
  | .valueType => 0x11
  | .classType => 0x12
  | .typeParameter => 0x13
  | .array => 0x14
  | .instantiation => 0x15
  | .functionPointer => 0x1B
  | .vector => 0x1D
  | .methodParameter => 0x1E
  | .modifier true => 0x1F
  | .modifier false => 0x20
  | .pinned => 0x45

/-- The element of a byte. -/
def ofCode? (code : UInt8) : Option Element :=
  match Primitive.ofCode? code with
  | some type => some (.primitive type)
  | none =>
    match code.toNat with
    | 0x0F => some .pointer
    | 0x10 => some .byReference
    | 0x11 => some .valueType
    | 0x12 => some .classType
    | 0x13 => some .typeParameter
    | 0x14 => some .array
    | 0x15 => some .instantiation
    | 0x1B => some .functionPointer
    | 0x1D => some .vector
    | 0x1E => some .methodParameter
    | 0x1F => some (.modifier true)
    | 0x20 => some (.modifier false)
    | 0x45 => some .pinned
    | _ => none

/-- An element is found again by its byte. -/
@[simp] theorem ofCode?_code (e : Element) : ofCode? e.code = some e := by
  cases e with
  | primitive type => simp [code, ofCode?]
  | modifier required => cases required <;> rfl
  | _ => rfl

/-- The mark before the first parameter that a call may leave out. -/
def sentinel : UInt8 := 0x41

end Element

/-- The number means a reference type or a value type where an element is expected. -/
def isNominalCode (code : Nat) : Bool :=
  code == Element.classType.code.toNat || code == Element.valueType.code.toNat

end ApiCensus.Signature
