/-
  Unsigned numerals.

  * `unsigned?`: an optional plus sign and one digit or more, with a value below a bound.
-/

namespace ApiCensus.Numeral

/-- The value of a run of digits, or `none` if it holds anything else. -/
def value? (digit? : Char → Option Nat) (base : Nat) (cs : List Char) : Option Nat :=
  cs.foldlM (fun n c => (digit? c).map (n * base + ·)) 0

/-- The value of a numeral: a plus sign may stand in front, a digit has to follow, and the
    value is below `bound`. -/
def unsigned? (digit? : Char → Option Nat) (base bound : Nat) (cs : List Char) : Option Nat :=
  let digits := match cs with
    | '+' :: rest => rest
    | _ => cs
  match digits with
  | [] => none
  | _ => (value? digit? base digits).filter (· < bound)

/-- The value of a decimal digit. -/
def decimal? (c : Char) : Option Nat :=
  if '0' ≤ c ∧ c ≤ '9' then some (c.toNat - '0'.toNat) else none

/-- A decimal numeral below `bound`. -/
def nat? (bound : Nat) (cs : List Char) : Option Nat :=
  unsigned? decimal? 10 bound cs

end ApiCensus.Numeral
