/-
  Runs of operations on a cursor.

  * `Cursor.Whole`: a step that is done as a whole or not at all.
  * `Signature.skipOn`: passing over a type in words, with a depth that is counted up.
  * `Cursor.Operation`: what is done with a cursor, and its arguments; `step` and `stepOn` do it
    without a bound and in words.
  * `Cursor.runAll`, `runAllOn`: one operation after the other, also behind one that has failed.
  * `Cursor.Operation.safeFrom_of_fits`: what an operation preserves, whichever it is.
    `Cursor.runAll_safe`: what a run preserves.
-/
import ApiCensus.Proofs.Bytes.Words
import ApiCensus.Signature.Skip

namespace ApiCensus

open Attempt Cursor

/-! ## Steps that are done as a whole -/

namespace Cursor

variable {α : Type}

/-- A step that fails leaves the cursor where it was. -/
def Whole (step : Attempt Cursor α) : Prop :=
  ∀ cursor fault, (step cursor).1 = .error fault → (step cursor).2 = cursor

theorem whole_ite {fits : Cursor → Prop} [DecidablePred fits] {answer : Cursor → α}
    {place : Cursor → Cursor} {fault : Fault} :
    Whole fun cursor =>
      if fits cursor then (.ok (answer cursor), place cursor) else (.error fault, cursor) := by
  intro cursor fault h
  dsimp only at h ⊢
  by_cases hfits : fits cursor
  · rw [if_pos hfits] at h
    cases h
  · rw [if_neg hfits]

theorem whole_seek (pos : Nat) : Whole (seek pos) :=
  whole_ite

theorem whole_advance (count : Nat) : Whole (advance count) :=
  whole_ite

theorem whole_align (unit : Nat) : Whole (align unit) :=
  fun cursor => whole_advance ((unit - cursor.pos % unit) % unit) cursor

theorem whole_take (count : Nat) : Whole (take count) :=
  whole_ite

theorem whole_number (width : Nat) : Whole (number width) := by
  intro cursor fault h
  unfold number at h ⊢
  cases hread : LittleEndian.read? cursor.data cursor.pos width with
  | none => rfl
  | some n =>
    rw [hread] at h
    cases h

theorem whole_peek : Whole peek := by
  intro cursor fault _
  unfold peek
  split <;> rfl

end Cursor

/-! ## Types -/

namespace Signature

/-- Does a step in words several times. -/
def skipEachOn (step : CheckedAttempt Cursor Unit) : Nat → CheckedAttempt Cursor Unit
  | 0 => pure ()
  | count + 1 => do
    step
    skipEachOn step count

/-- Passes over a type at a depth. The depth of the types inside it is counted up as soon as there
    can be any, and there is room for so many levels. -/
def skipFromOn : Nat → Nat → CheckedAttempt Cursor Unit
  | 0, _ => .missing
  | levels + 1, depth =>
    if maxSkipDepth < depth then throw (.tooDeep maxSkipDepth)
    else do
      let code ← byteOn
      let deeper ← Checked.add 64 depth 1
      match Element.ofCode? code with
      | none => throw (.malformed (.skippedElement code))
      | some (.primitive _) => pure ()
      | some .pointer | some .byReference | some .pinned | some .vector =>
        skipFromOn levels deeper
      | some .functionPointer => do
        let header : Header := ⟨← byteOn⟩
        if header.isGeneric then
          let _ ← Compressed.numberOn
        let count ← Compressed.numberOn
        skipFromOn levels deeper
        skipEachOn (skipFromOn levels deeper) count
      | some .array => do
        skipFromOn levels deeper
        let _ ← Compressed.numberOn
        let sizes ← Compressed.numberOn
        skipEachOn (discard Compressed.numberOn) sizes
        let lowerBounds ← Compressed.numberOn
        skipEachOn (discard Compressed.signedNumberOn) lowerBounds
      | some (.modifier _) => do
        let _ ← Compressed.tokenOn
        skipFromOn levels deeper
      | some .instantiation => do
        skipFromOn levels deeper
        let count ← Compressed.numberOn
        skipEachOn (skipFromOn levels deeper) count
      | some .typeParameter | some .methodParameter => discard Compressed.numberOn
      | some .classType | some .valueType => discard Compressed.tokenOn

/-- Passes over a type. -/
def skipOn : CheckedAttempt Cursor Unit :=
  skipFromOn (maxSkipDepth + 2) 0

theorem safe_skipEach {checked : CheckedAttempt Cursor Unit} {step : Attempt Cursor Unit}
    (h : Safe checked step) (count : Nat) :
    Safe (skipEachOn checked count) (skipEach step count) := by
  induction count with
  | zero => exact safe_pure ()
  | succ count ih => exact h.bind fun _ => ih

theorem safe_discard {α : Type} {checked : CheckedAttempt Cursor α} {step : Attempt Cursor α}
    (h : Safe checked step) : Safe (discard checked) (discard step) := by
  show Safe ((fun _ => ()) <$> checked) ((fun _ => ()) <$> step)
  rw [map_eq_pure_bind, map_eq_pure_bind]
  exact h.bind fun _ => safe_pure ()

/-- Each type inside another one takes a level and is counted, so their sum stays the same. -/
theorem safe_skipFrom {levels depth : Nat} (h : levels + depth = maxSkipDepth + 1) :
    Safe (skipFromOn (levels + 1) depth) (skipWithin levels) := by
  induction levels generalizing depth with
  | zero =>
    rw [skipFromOn, if_pos (by omega)]
    exact safe_throw _
  | succ levels ih =>
    have hdepth : ¬ maxSkipDepth < depth := by omega
    have hmax : maxSkipDepth = 50 := rfl
    have hadd : Checked.add 64 depth 1 = pure (depth + 1) := if_pos (by omega)
    have hdeeper : Safe (skipFromOn (levels + 1) (depth + 1)) (skipWithin levels) := ih (by omega)
    rw [skipFromOn, if_neg hdepth, skipWithin]
    refine safe_byte.bind fun code => ?_
    rw [hadd, CheckedAttempt.liftM_pure, pure_bind]
    cases Element.ofCode? code with
    | none => exact safe_throw _
    | some element =>
      cases element with
      | primitive => exact safe_pure ()
      | pointer | byReference | pinned | vector => exact hdeeper
      | functionPointer =>
        refine safe_byte.bind fun byte => ?_
        have hrest := Compressed.safe_number.bind fun count =>
          hdeeper.bind fun _ => safe_skipEach hdeeper count
        exact Safe.ite (Compressed.safe_number.bind fun _ => hrest) hrest
      | array =>
        refine hdeeper.bind fun _ => Compressed.safe_number.bind fun _ => ?_
        refine Compressed.safe_number.bind fun sizes => ?_
        refine (safe_skipEach (safe_discard Compressed.safe_number) sizes).bind fun _ => ?_
        exact Compressed.safe_number.bind fun lowerBounds =>
          safe_skipEach (safe_discard Compressed.safe_signedNumber) lowerBounds
      | modifier => exact Compressed.safe_token.bind fun _ => hdeeper
      | instantiation =>
        exact hdeeper.bind fun _ => Compressed.safe_number.bind fun count =>
          safe_skipEach hdeeper count
      | typeParameter | methodParameter => exact safe_discard Compressed.safe_number
      | classType | valueType => exact safe_discard Compressed.safe_token

theorem safe_skip : Safe skipOn skip :=
  safe_skipFrom rfl

end Signature

/-! ## Operations -/

namespace Cursor

/-- What is done with a cursor. -/
inductive Operation where
  | number (width : Nat)
  | seek (pos : Nat)
  | advance (count : Nat)
  | align (unit : Nat) (nonzero : unit ≠ 0)
  | take (count : Nat)
  | peek
  | compressedNumber
  | compressedSigned
  | compressedToken
  | text
  | skipText
  | skipType
  deriving Repr, DecidableEq

namespace Operation

/-- What an operation that ends well answers. -/
def Answer : Operation → Type
  | .number _ | .compressedNumber => Nat
  | .seek _ | .advance _ | .align _ _ | .skipText | .skipType => Unit
  | .take _ => ByteArray
  | .peek => UInt8
  | .compressedSigned => Int
  | .compressedToken => Token
  | .text => Option String

/-- What the operation does. -/
def step : (operation : Operation) → Attempt Cursor operation.Answer
  | .number width => Cursor.number width
  | .seek pos => Cursor.seek pos
  | .advance count => Cursor.advance count
  | .align unit _ => Cursor.align unit
  | .take count => Cursor.take count
  | .peek => Cursor.peek
  | .compressedNumber => Compressed.number
  | .compressedSigned => Compressed.signedNumber
  | .compressedToken => Compressed.token
  | .text => SerializedText.read
  | .skipText => SerializedText.skip
  | .skipType => Signature.skip

/-- The operation in words. -/
def stepOn : (operation : Operation) → CheckedAttempt Cursor operation.Answer
  | .number width => Cursor.numberOn width
  | .seek pos => Cursor.seekOn pos
  | .advance count => Cursor.advanceOn count
  | .align unit _ => Cursor.alignOn unit
  | .take count => Cursor.takeOn count
  | .peek => Cursor.peekOn
  | .compressedNumber => Compressed.numberOn
  | .compressedSigned => Compressed.signedNumberOn
  | .compressedToken => Compressed.tokenOn
  | .text => SerializedText.readOn
  | .skipText => SerializedText.skipOn
  | .skipType => Signature.skipOn

/-- The operation goes to a position that is given. -/
def IsSeek (operation : Operation) : Prop :=
  ∃ pos, operation = .seek pos

/-- The operation is done as a whole or not at all. The others read a number first, and may fail
    behind it. -/
def isWhole : Operation → Bool
  | .number _ | .seek _ | .advance _ | .align _ _ | .take _ | .peek => true
  | _ => false

variable {operation : Operation} {cursor : Cursor}

theorem safe_step (h : ¬ operation.IsSeek) : Safe operation.stepOn operation.step := by
  cases operation with
  | number width => exact safe_number width
  | seek pos => exact absurd ⟨pos, rfl⟩ h
  | advance count => exact safe_advance count
  | align unit nonzero => exact safe_align nonzero
  | take count => exact safe_take count
  | peek => exact safe_peek
  | compressedNumber => exact Compressed.safe_number
  | compressedSigned => exact Compressed.safe_signedNumber
  | compressedToken => exact Compressed.safe_token
  | text => exact SerializedText.safe_read
  | skipText => exact SerializedText.safe_skip
  | skipType => exact Signature.safe_skip

theorem whole_step (h : operation.isWhole) : Whole operation.step := by
  cases operation with
  | number width => exact whole_number width
  | seek pos => exact whole_seek pos
  | advance count => exact whole_advance count
  | align unit => exact whole_align unit
  | take count => exact whole_take count
  | peek => exact whole_peek
  | compressedNumber | compressedSigned | compressedToken => cases h
  | text | skipText | skipType => cases h

/-- What an operation does at a cursor: nothing is missing, and the cursor stays inside the data. It
    does not go back unless it is told where to, and not at all if it fails as a whole. -/
structure SafeFrom (operation : Operation) (cursor : Cursor) : Prop where
  exact : operation.stepOn cursor = some (operation.step cursor)
  data_eq : (operation.step cursor).2.data = cursor.data
  inside : (operation.step cursor).2.pos ≤ cursor.data.size
  onward : ¬ operation.IsSeek → cursor.pos ≤ (operation.step cursor).2.pos
  unmoved : operation.isWhole → ∀ fault, (operation.step cursor).1 = .error fault →
    (operation.step cursor).2 = cursor

theorem safeFrom_of_fits (operation : Operation) (hc : cursor.Fits) :
    operation.SafeFrom cursor := by
  by_cases hseek : operation.IsSeek
  · obtain ⟨pos, rfl⟩ := hseek
    obtain ⟨hdata, hinside⟩ : (Cursor.seek pos cursor).2.data = cursor.data ∧
        (Cursor.seek pos cursor).2.pos ≤ cursor.data.size := by
      unfold Cursor.seek
      split
      · next hpos => exact ⟨rfl, hpos⟩
      · exact ⟨rfl, hc.inside⟩
    exact ⟨rfl, hdata, hinside, fun h => absurd ⟨pos, rfl⟩ h, fun h => whole_step h cursor⟩
  · obtain ⟨hexact, honward⟩ := safe_step hseek cursor hc
    exact ⟨hexact, honward.data_eq, honward.inside, fun _ => honward.le_pos,
      fun h => whole_step h cursor⟩

theorem SafeFrom.fits (h : operation.SafeFrom cursor) (hc : cursor.Fits) :
    (operation.step cursor).2.Fits :=
  ⟨h.data_eq ▸ hc.size_lt, h.data_eq ▸ h.inside⟩

end Operation

/-! ## Runs -/

/-- One operation after the other, also behind one that has failed. -/
def runAll (operations : List Operation) (cursor : Cursor) : Cursor :=
  operations.foldl (fun cursor operation => (operation.step cursor).2) cursor

/-- One operation after the other in words. -/
def runAllOn (operations : List Operation) (cursor : Cursor) : Option Cursor :=
  operations.foldlM (fun cursor operation => Prod.snd <$> operation.stepOn cursor) cursor

theorem runAllOn_eq (operations : List Operation) {cursor : Cursor} (hc : cursor.Fits) :
    runAllOn operations cursor = some (runAll operations cursor) := by
  induction operations generalizing cursor with
  | nil => rfl
  | cons operation operations ih =>
    have hfirst := operation.safeFrom_of_fits hc
    rw [runAllOn, List.foldlM_cons, hfirst.exact]
    exact ih (hfirst.fits hc)

theorem runAll_inside (operations : List Operation) {cursor : Cursor} (hc : cursor.Fits) :
    (runAll operations cursor).data = cursor.data ∧
      (runAll operations cursor).pos ≤ cursor.data.size := by
  induction operations generalizing cursor with
  | nil => exact ⟨rfl, hc.inside⟩
  | cons operation operations ih =>
    have hfirst := operation.safeFrom_of_fits hc
    have hrest := ih (hfirst.fits hc)
    rw [hfirst.data_eq] at hrest
    exact hrest

/-- **Whatever has been done before, and however it ended, nothing was missing and the cursor stands
    inside the data. From there every operation is safe: in words nothing is missing, the cursor
    stays inside the data, only seeking takes it back, and an operation that is done as a whole
    or not at all leaves it in its place when it fails.** -/
theorem runAll_safe (data : ByteArray) (hdata : data.size < 2 ^ 64) (before : List Operation)
    (next : Operation) :
    runAllOn before { data } = some (runAll before { data }) ∧
    (runAll before { data }).data = data ∧
    (runAll before { data }).pos ≤ data.size ∧
    next.SafeFrom (runAll before { data }) := by
  have hstart : Cursor.Fits { data } := ⟨hdata, Nat.zero_le _⟩
  obtain ⟨hsame, hinside⟩ := runAll_inside before hstart
  have hfits : (runAll before { data }).Fits := ⟨hsame.symm ▸ hdata, hsame.symm ▸ hinside⟩
  exact ⟨runAllOn_eq before hstart, hsame, hinside, next.safeFrom_of_fits hfits⟩

/-- A number, and the start of another one. -/
def cutNumber : ByteArray :=
  [0x01, 0x80].toByteArray

/-- A step that is far too long goes nowhere. A number that ends too early is left behind its first
    byte. -/
theorem runAll_safe_cutNumber :
    runAllOn [.advance (2 ^ 64 - 1), .compressedNumber, .compressedNumber] { data := cutNumber } =
      some { data := cutNumber, pos := 2 } ∧
    (Operation.align 4 (by decide)).stepOn { data := cutNumber, pos := 2 } =
      some (.error .outOfBounds, { data := cutNumber, pos := 2 }) := by
  obtain ⟨hrun, -, -, hnext⟩ := runAll_safe cutNumber (by decide)
    [.advance (2 ^ 64 - 1), .compressedNumber, .compressedNumber] (.align 4 (by decide))
  exact ⟨hrun, hnext.exact⟩

end Cursor

end ApiCensus
