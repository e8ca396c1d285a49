/-
  Hexadecimal text of fixed width, in lower case.

  * `ofNat`: the low hexadecimal digits of a number, most significant first.
  * `ofBytes`: two digits a byte.
  * `digit?`: the value of a digit of either case.
-/

namespace ApiCensus.Hex

/-- The `width` low hexadecimal digits of a number, most significant first. -/
def digits : Nat → Nat → List Char
  | 0, _ => []
  | width + 1, n => digits width (n / 16) ++ [Nat.digitChar (n % 16)]

/-- Every text has exactly the width asked for. -/
@[simp] theorem length_digits (width n : Nat) : (digits width n).length = width := by
  induction width generalizing n with
  | zero => rfl
  | succ w ih => simp [digits, ih]

/-- `digits` as text. -/
def ofNat (width n : Nat) : String :=
  String.ofList (digits width n)

/-- Two digits a byte, in order. -/
def ofBytes (data : ByteArray) : String :=
  data.foldl (fun text byte => text ++ ofNat 2 byte.toNat) ""

/-- The value of one hexadecimal digit of either case. -/
def digit? (c : Char) : Option Nat :=
  if '0' ≤ c ∧ c ≤ '9' then some (c.toNat - '0'.toNat)
  else if 'a' ≤ c ∧ c ≤ 'f' then some (c.toNat - 'a'.toNat + 10)
  else if 'A' ≤ c ∧ c ≤ 'F' then some (c.toNat - 'A'.toNat + 10)
  else none

end ApiCensus.Hex
