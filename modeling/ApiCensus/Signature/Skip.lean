/-
  Passing over a type without a look at what it is.

  * `Signature.skip`: leaves the cursor behind the type.
-/
import ApiCensus.Bytes.Compressed
import ApiCensus.Signature.Element

namespace ApiCensus.Signature

/-- How deep types nest below a type that is passed over. -/
def maxSkipDepth : Nat := 50

/-- Passes over `count` things. -/
def skipEach (step : Attempt Cursor Unit) : Nat → Attempt Cursor Unit
  | 0 => pure ()
  | count + 1 => do
    step
    skipEach step count

/-- Passes over a type, given how deep types may still nest. -/
def skipWithin : Nat → Attempt Cursor Unit
  | 0 => throw (.tooDeep maxSkipDepth)
  | depth + 1 => do
    let code ← Cursor.byte
    match Element.ofCode? code with
    | none => Attempt.malformed (.skippedElement code)
    | some (.primitive _) => pure ()
    | some .pointer | some .byReference | some .pinned | some .vector => skipWithin depth
    | some .functionPointer => do
      let header : Header := ⟨← Cursor.byte⟩
      if header.isGeneric then
        let _ ← Compressed.number
      let count ← Compressed.number
      skipWithin depth
      skipEach (skipWithin depth) count
    | some .array => do
      skipWithin depth
      let _ ← Compressed.number
      let sizes ← Compressed.number
      skipEach (discard Compressed.number) sizes
      let lowerBounds ← Compressed.number
      skipEach (discard Compressed.signedNumber) lowerBounds
    | some (.modifier _) => do
      let _ ← Compressed.token
      skipWithin depth
    | some .instantiation => do
      skipWithin depth
      let count ← Compressed.number
      skipEach (skipWithin depth) count
    | some .typeParameter | some .methodParameter => discard Compressed.number
    | some .classType | some .valueType => discard Compressed.token

/-- Passes over a type. -/
def skip : Attempt Cursor Unit :=
  skipWithin (maxSkipDepth + 1)

end ApiCensus.Signature
