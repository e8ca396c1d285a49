/-
  The types that a signature names with a single byte.

  * `Primitive`: the types; `Primitive.code` is the byte, `Primitive.name` the simple name.
  * `Primitive.ofCode?_code`: a type is found again by its byte.
  * `Primitive.isIntegral`: the types that can underlie an enum.
-/

namespace ApiCensus

/-- A type that a signature names with a single byte. -/
inductive Primitive where
  | boolean | char | sByte | byte | int16 | uInt16 | int32 | uInt32 | int64 | uInt64
  | single | double | string | intPtr | uIntPtr | object | typedReference | void
  deriving Repr, DecidableEq, Inhabited

namespace Primitive

/-- Every type, in the order of the constructors. -/
def all : List Primitive :=
  [.boolean, .char, .sByte, .byte, .int16, .uInt16, .int32, .uInt32, .int64, .uInt64,
   .single, .double, .string, .intPtr, .uIntPtr, .object, .typedReference, .void]

/-- The byte of a type. -/
def code : Primitive → UInt8
  | .void => 0x01
  | .boolean => 0x02
  | .char => 0x03
  | .sByte => 0x04
  | .byte => 0x05
  | .int16 => 0x06
  | .uInt16 => 0x07
  | .int32 => 0x08
  | .uInt32 => 0x09
  | .int64 => 0x0A
  | .uInt64 => 0x0B
  | .single => 0x0C
  | .double => 0x0D
  | .string => 0x0E
  | .typedReference => 0x16
  | .intPtr => 0x18
  | .uIntPtr => 0x19
  | .object => 0x1C

/-- The type of a byte. -/
def ofCode? (code : UInt8) : Option Primitive :=
  match code.toNat with
  | 0x01 => some .void
  | 0x02 => some .boolean
  | 0x03 => some .char
  | 0x04 => some .sByte
  | 0x05 => some .byte
  | 0x06 => some .int16
  | 0x07 => some .uInt16
  | 0x08 => some .int32
  | 0x09 => some .uInt32
  | 0x0A => some .int64
  | 0x0B => some .uInt64
  | 0x0C => some .single
  | 0x0D => some .double
  | 0x0E => some .string
  | 0x16 => some .typedReference
  | 0x18 => some .intPtr
  | 0x19 => some .uIntPtr
  | 0x1C => some .object
  | _ => none

/-- A type is found again by its byte. -/
@[simp] theorem ofCode?_code (p : Primitive) : ofCode? p.code = some p := by
  cases p <;> rfl

/-- The simple name of a type. -/
def name : Primitive → String
  | .boolean => "Boolean"
  | .char => "Char"
  | .sByte => "SByte"
  | .byte => "Byte"
  | .int16 => "Int16"
  | .uInt16 => "UInt16"
  | .int32 => "Int32"
  | .uInt32 => "UInt32"
  | .int64 => "Int64"
  | .uInt64 => "UInt64"
  | .single => "Single"
  | .double => "Double"
  | .string => "String"
  | .intPtr => "IntPtr"
  | .uIntPtr => "UIntPtr"
  | .object => "Object"
  | .typedReference => "TypedReference"
  | .void => "Void"

instance : ToString Primitive := ⟨name⟩

/-- The types that can underlie an enum. -/
def isIntegral : Primitive → Bool
  | .sByte | .byte | .int16 | .uInt16 | .int32 | .uInt32 | .int64 | .uInt64 => true
  | _ => false

end Primitive

end ApiCensus
