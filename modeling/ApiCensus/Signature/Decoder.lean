/-
  Reading signatures.

  * `Signature.type`: a type; what is made of it is up to a `TypeBuilder`, which is called for
    the parts of a type before the type itself.
  * `Signature.method`, `Signature.fieldType`: whole signatures.

  Types nest at most `maxDepth` deep.
-/
import ApiCensus.Bytes.Compressed
import ApiCensus.Signature.Element
import ApiCensus.Signature.Type

namespace ApiCensus.Signature

/-- How deep types nest in a signature. -/
def maxDepth : Nat := 50

/-- Reading a signature while something is built from it. -/
abbrev Decoding (σ : Type) := Attempt (Cursor × σ)

namespace Decoding

variable {σ β : Type}

/-- A step that reads. -/
def read (step : Attempt Cursor β) : Decoding σ β :=
  Attempt.onPart Prod.fst (fun state cursor => (cursor, state.2)) step

/-- A step that builds. -/
def build (step : Attempt σ β) : Decoding σ β :=
  Attempt.onPart Prod.snd (fun state built => (state.1, built)) step

/-- Reads at another cursor, which comes back with the result. -/
def aside (cursor : Cursor) (decoding : Decoding σ β) : Decoding σ (β × Cursor) :=
  fun (here, state) =>
    match decoding (cursor, state) with
    | (.ok result, (cursor, state)) => (.ok (result, cursor), (here, state))
    | (.error fault, (_, state)) => (.error fault, (here, state))

/-- Runs the reading of a byte string inside what builds. -/
def onBytes (decoding : Decoding σ β) (data : ByteArray) : Attempt σ β := fun state =>
  let (result, (_, state)) := decoding ({ data }, state)
  (result, state)

end Decoding

open Decoding

variable {σ α : Type}

/-- The first byte of a signature. -/
def header : Attempt Cursor Header := do
  return ⟨← Cursor.byte⟩

/-- The dimensions of an array: no dimension has two sizes or two lower bounds. -/
def arrayShape : Attempt Cursor ArrayShape := do
  let rank ← Compressed.number
  if rank = 0 then
    Attempt.malformed .arrayRank
  else
    let sizeCount ← Compressed.number
    if rank < sizeCount then
      Attempt.malformed (.arraySizes sizeCount rank)
    else
      let sizes ← Attempt.repeated Compressed.number sizeCount
      let boundCount ← Compressed.number
      if rank < boundCount then
        Attempt.malformed (.arrayLowerBounds boundCount rank)
      else
        let lowerBounds ← Attempt.repeated Compressed.signedNumber boundCount
        pure { rank, sizes, lowerBounds }

/-- A named type: a compressed token into one of the tables of types. -/
def nominal (builder : TypeBuilder σ α) (form : NominalForm) : Decoding σ α := do
  let token ← read Compressed.token
  match token.table? with
  | some .typeDef => build (builder.definition token form)
  | some .typeRef => build (builder.reference token form)
  | some .typeSpec => build (builder.specification token form)
  | _ => Attempt.malformed (.typeHandle token)

/-- The parameters from number `index` on, of which `left` are still to be read. At most one
    mark stands before a parameter; `sentinel` is the number of the parameter that it stood
    before. -/
def parameters (type : Decoding σ α) (index : Nat) (sentinel : Option Nat) :
    Nat → Decoding σ (List α × Option Nat)
  | 0 => pure ([], sentinel)
  | left + 1 => do
    let next ← read Cursor.peek
    let sentinel ←
      if next == Element.sentinel then
        if sentinel.isSome then
          Attempt.malformed .secondSentinel
        else
          read (Cursor.advance 1)
          pure (some index)
      else
        pure sentinel
    let parameter ← type
    let (rest, sentinel) ← parameters type (index + 1) sentinel left
    pure (parameter :: rest, sentinel)

/-- A method or property signature, given how a type is read. -/
def methodOf (type : Decoding σ α) : Decoding σ (MethodSignature α) := do
  let header ← read header
  if header.kind = .method ∨ header.kind = .property then
    let genericCount ← if header.isGeneric then read Compressed.number else pure 0
    let count ← read Compressed.number
    let returnType ← type
    let (parameters, sentinel) ← parameters type 0 none count
    pure { header, genericCount, requiredCount := sentinel.getD count, returnType, parameters }
  else
    Attempt.malformed (.methodHeader header)

/-- A type of which the first byte has been read, given how the types inside it are read. -/
def typeFrom (builder : TypeBuilder σ α) (inner : Decoding σ α) : Element → Decoding σ α
  | .primitive type => build (builder.primitive type)
  | .classType => nominal builder .classType
  | .valueType => nominal builder .valueType
  | .pointer => do
    let element ← inner
    build (builder.pointer element)
  | .byReference => do
    let element ← inner
    build (builder.byReference element)
  | .pinned => do
    let element ← inner
    build (builder.pinned element)
  | .vector => do
    let element ← inner
    build (builder.vector element)
  | .array => do
    let element ← inner
    let shape ← read arrayShape
    build (builder.array element shape)
  | .instantiation => do
    let generic ← inner
    let count ← read Compressed.number
    if count = 0 then
      Attempt.malformed .noTypeArguments
    else
      let arguments ← Attempt.repeated inner count
      build (builder.instantiation generic arguments)
  | .typeParameter => do
    let index ← read Compressed.number
    build (builder.typeParameter index)
  | .methodParameter => do
    let index ← read Compressed.number
    build (builder.methodParameter index)
  | .modifier required => do
    let modifier ← nominal builder .unstated
    let unmodified ← inner
    build (builder.modified modifier unmodified required)
  | .functionPointer => do
    let signature ← methodOf inner
    build (builder.functionPointer signature)

/-- A type, given how deep types may still nest. -/
def typeWithin (builder : TypeBuilder σ α) : Nat → Decoding σ α
  | 0 => throw (.tooDeep maxDepth)
  | depth + 1 => do
    let code ← read Cursor.byte
    match Element.ofCode? code with
    | none => Attempt.malformed (.elementType code)
    | some element => typeFrom builder (typeWithin builder depth) element

/-- A type. -/
def type (builder : TypeBuilder σ α) : Decoding σ α :=
  typeWithin builder maxDepth

/-- A method or property signature. -/
def method (builder : TypeBuilder σ α) : Decoding σ (MethodSignature α) :=
  methodOf (type builder)

/-- The type of a field signature. -/
def fieldType (builder : TypeBuilder σ α) : Decoding σ α := do
  let header ← read header
  if header.kind = .field then type builder
  else Attempt.malformed (.fieldHeader header)

end ApiCensus.Signature
