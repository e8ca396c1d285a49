/-
  Results in words.

  * `Checked.add`, `sub`, `mul`, `rem`, `clamp`, `subSigned`: the operations on words.
  * `Checked.slice`, `byteAt`: the parts of a byte string.
  * `CheckedAttempt`: a computation on a state that comes to results in words, and its steps.
-/
import ApiCensus.Proofs.Attempt
import Mathlib.Algebra.Group.Int.Defs
import Mathlib.Algebra.Group.Nat.Defs

namespace ApiCensus

namespace Checked

variable {α β : Type}

/-- A result that takes no arithmetic. -/
def ofExcept (result : Except Fault α) : Checked α :=
  ExceptT.mk (some result)

/-- The sum of two words of `bits` bits. -/
def add (bits a b : Nat) : Checked Nat :=
  if a + b < 2 ^ bits then pure (a + b) else missing

/-- The difference of two words. -/
def sub (a b : Nat) : Checked Nat :=
  if b ≤ a then pure (a - b) else missing

/-- The product of two words of `bits` bits. -/
def mul (bits a b : Nat) : Checked Nat :=
  if a * b < 2 ^ bits then pure (a * b) else missing

/-- What is left when a word is divided. -/
def rem (a unit : Nat) : Checked Nat :=
  if unit = 0 then missing else pure (a % unit)

/-- The difference of two signed numbers. -/
def subSigned (bits : Nat) (a b : Int) : Checked Int :=
  if -2 ^ (bits - 1) ≤ a - b ∧ a - b < 2 ^ (bits - 1) then pure (a - b) else missing

/-- The number of a range that is closest to a value. -/
def clamp (value lower upper : Nat) : Checked Nat :=
  if lower ≤ upper then pure (min (max value lower) upper) else missing

/-- The bytes between two positions. -/
def slice (data : ByteArray) (start stop : Nat) : Checked ByteArray :=
  if start ≤ stop ∧ stop ≤ data.size then pure (data.extract start stop) else missing

/-- The byte at a position. -/
def byteAt (data : ByteArray) (pos : Nat) : Checked UInt8 :=
  match data[pos]? with
  | some byte => pure byte
  | none => missing

@[simp] theorem ofExcept_ok (a : α) : ofExcept (.ok a) = pure a := rfl

theorem ofExcept_bind (result : Except Fault α) (next : α → Except Fault β) :
    ofExcept (result >>= next) = ofExcept result >>= fun a => ofExcept (next a) := by
  cases result <;> rfl

theorem ofExcept_map (f : α → β) (result : Except Fault α) :
    ofExcept (f <$> result) = f <$> ofExcept result := by
  cases result <;> rfl

end Checked

/-! ## On a state -/

/-- A computation that may fail, on a state that it keeps either way, in words. -/
abbrev CheckedAttempt (σ : Type) := ExceptT Fault (StateT σ Option)

namespace CheckedAttempt

variable {σ α β : Type}

/-- A result that needs no state. -/
instance liftChecked : MonadLift Checked (CheckedAttempt σ) where
  monadLift result := fun state => (·, state) <$> result.run

/-- A computation that takes no arithmetic. -/
def ofAttempt (attempt : Attempt σ α) : CheckedAttempt σ α :=
  fun state => some (attempt state)

/-- The program stops. -/
def missing : CheckedAttempt σ α :=
  liftM (Checked.missing : Checked α)

@[simp] theorem liftM_pure (a : α) :
    (liftM (pure a : Checked α) : CheckedAttempt σ α) = pure a := rfl

@[simp] theorem get_bind_apply (next : σ → CheckedAttempt σ β) (s : σ) :
    (get >>= next) s = next s s := rfl

/-- A run goes on like one without a bound, as long as nothing is missing. -/
theorem bind_apply {checked : CheckedAttempt σ α} {next : α → CheckedAttempt σ β}
    {attempt : Attempt σ α} {next' : α → Attempt σ β} {s : σ} (h : checked s = some (attempt s))
    (hn : ∀ a t, attempt s = (.ok a, t) → next a t = some (next' a t)) :
    (checked >>= next) s = some ((attempt >>= next') s) := by
  rw [Attempt.bind_apply]
  show (checked s >>= _) = _
  rw [h]
  rcases hr : attempt s with ⟨fault | a, t⟩
  · rfl
  · exact hn a t hr

end CheckedAttempt

end ApiCensus
