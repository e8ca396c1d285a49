/-
  Multiples of a unit.

  * `roundDown`, `roundUp`: the nearest multiples.
  * `padded`: a byte string filled up with zeros.
-/

namespace ApiCensus.Alignment

/-- `n` rounded down to a multiple of `unit`. -/
def roundDown (unit n : Nat) : Nat := n / unit * unit

/-- `n` rounded up to a multiple of `unit`. -/
def roundUp (unit n : Nat) : Nat := roundDown unit (n + unit - 1)

/-- The zeros between a position and the next multiple of `unit`. -/
def padding (unit position : Nat) : List UInt8 :=
  List.replicate (roundUp unit position - position) 0

/-- A byte string whose length is a multiple of `unit`. -/
def padded (unit : Nat) (data : List UInt8) : List UInt8 :=
  data ++ padding unit data.length

end ApiCensus.Alignment
