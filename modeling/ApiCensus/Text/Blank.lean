/-
  Blank characters, and text without blanks at its ends.

  * `isBlank`: the characters of the Unicode property White_Space.
  * `trim`: the text between its first and its last character that is not blank.
-/

namespace ApiCensus.Blank

/-- The code point ranges of the Unicode property White_Space. -/
def ranges : List (Nat × Nat) :=
  [(0x09, 0x0D), (0x20, 0x20), (0x85, 0x85), (0xA0, 0xA0), (0x1680, 0x1680), (0x2000, 0x200A),
   (0x2028, 0x2029), (0x202F, 0x202F), (0x205F, 0x205F), (0x3000, 0x3000)]

/-- A character with the property White_Space. -/
def isBlank (c : Char) : Bool :=
  ranges.any fun range => range.1 ≤ c.toNat && c.toNat ≤ range.2

/-- The characters without those at either end that satisfy `p`. -/
def trimBy (p : Char → Bool) (cs : List Char) : List Char :=
  ((cs.dropWhile p).reverse.dropWhile p).reverse

/-- The characters between the first and the last that is not blank. -/
def trim (cs : List Char) : List Char :=
  trimBy isBlank cs

end ApiCensus.Blank
