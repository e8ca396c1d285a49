/-
  Fields that are references, and structures that live on the stack only.

  * `Collector.referenceFields`: fields whose type, beneath its modifiers, is a reference.
  * `Collector.referenceStructs`: types with the attribute that marks such structures.
-/
import ApiCensus.Feature.Nullability

namespace ApiCensus

namespace Assembly

open Signature

/-- The first byte behind any modifiers, at most `left` of them. -/
def elementBehindModifiers : Nat → Attempt Cursor UInt8
  | 0 => throw .outOfBounds
  | left + 1 => do
    let code ← Cursor.byte
    if code = (Element.modifier true).code ∨ code = (Element.modifier false).code then
      let _ ← Compressed.number
      elementBehindModifiers left
    else
      pure code

/-- The type in a field signature is, beneath its modifiers, a reference. Each modifier takes
    a byte at least, so there are no more modifiers than bytes. -/
def isReferenceField (signature : ByteArray) : Except Fault Bool :=
  let read : Attempt Cursor Bool := do
    let header ← Signature.header
    if header.kind = .field then
      let code ← elementBehindModifiers (signature.size + 1)
      pure (code == Element.byReference.code)
    else
      pure false
  read.result { data := signature }

variable (assembly : Assembly)

/-- A type has a field that is a reference. -/
def hasReferenceField (row : Except Fault TypeDefRow) : Except Fault Bool := do
  (← assembly.fieldsOf (← row)).anyM fun field => do
    isReferenceField (← assembly.blob field.signature)

/-- The attribute that marks structures that live on the stack only. -/
def stackOnlyAttribute : String := "IsByRefLikeAttribute"

/-- A token points at the attribute, whatever is around the type that it points at. -/
def marksStackOnly (token : Token) : Except Fault Bool := do
  let named (nameSpace name : Nat) : Except Fault Bool := do
    if (← assembly.text nameSpace) = compilerServices then
      pure ((← assembly.text name) == stackOnlyAttribute)
    else
      pure false
  match token.table? with
  | some .typeRef => do
    let type ← assembly.row TypeRefRow token.row
    named type.nameSpace type.name
  | some .typeDef => do
    let type ← assembly.row TypeDefRow token.row
    named type.nameSpace type.name
  | _ => pure false

/-- A type has the attribute. -/
def isStackOnly (row : Except Fault TypeDefRow) : Except Fault Bool := do
  (← assembly.attributesOf (← row).token).anyM fun mark => do
    match ← assembly.attributeType mark with
    | some type => assembly.marksStackOnly type
    | none => pure false

end Assembly

/-- Looks for a field that is a reference. -/
def Collector.referenceFields : Collector where
  name := "DefinesAnyRefFields"
  version := 3
  collect assembly _ :=
    Collecting.reportIfAny .definesReferenceFields assembly.definitions
      assembly.hasReferenceField

/-- Looks for a structure that lives on the stack only. -/
def Collector.referenceStructs : Collector where
  name := "DefinesAnyRefStructs"
  version := 2
  collect assembly _ :=
    Collecting.reportIfAny .definesReferenceStructs assembly.definitions assembly.isStackOnly

end ApiCensus
