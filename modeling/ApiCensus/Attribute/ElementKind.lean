/-
  The kinds of values that attributes hold.

  * `ElementKind`: the kind of a single value, which tells how many bytes it takes.
  * `ArgumentType`: the type of an argument, a single value or an array of them.
-/
import ApiCensus.Signature.Primitive

namespace ApiCensus

/-- The kind of a single value. -/
inductive ElementKind where
  /-- A number, a truth value, a character or a string. -/
  | primitive (type : Primitive)
  /-- A type, held as its name. -/
  | typeName
  /-- A value that is held together with its own type. -/
  | boxed
  /-- A value of unknown width. -/
  | unknown
  deriving Repr, DecidableEq, Inhabited

namespace ElementKind

/-- The name of a kind. -/
def name : ElementKind → String
  | .primitive type => type.name
  | .typeName => "<Type>"
  | .boxed => "<TaggedObject>"
  | .unknown => "<Unknown>"

/-- The kind that a byte from that of `Boolean` to that of `String` stands for. -/
def ofCode? (code : UInt8) : Option ElementKind :=
  if Primitive.boolean.code ≤ code ∧ code ≤ Primitive.string.code then
    (Primitive.ofCode? code).map .primitive
  else
    none

/-- The kind of an enum, given the type that underlies it. -/
def ofUnderlying (underlying : Option Primitive) : ElementKind :=
  match underlying.filter Primitive.isIntegral with
  | some type => .primitive type
  | none => .unknown

/-- The number of bytes of a value, `none` if it depends on the value. -/
def width? : ElementKind → Option Nat
  | .primitive .boolean | .primitive .sByte | .primitive .byte => some 1
  | .primitive .char | .primitive .int16 | .primitive .uInt16 => some 2
  | .primitive .int32 | .primitive .uInt32 | .primitive .single => some 4
  | .primitive .int64 | .primitive .uInt64 | .primitive .double => some 8
  | _ => none

end ElementKind

/-- The type of an argument. -/
inductive ArgumentType where
  | element (kind : ElementKind)
  | vector (kind : ElementKind)
  deriving Repr, DecidableEq, Inhabited

end ApiCensus
