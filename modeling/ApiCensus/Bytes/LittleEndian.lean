/-
  Numbers in byte strings, least significant byte first.

  * `valueAt`: the number in `width` bytes from a position on; bytes beyond the end count as 0.
  * `read?`: the same, if all bytes are there.
  * `bound`: one more than the largest number of a width.
  * `encode`: the low bytes of a number; `encodeAll`: those of several numbers.
  * `signed`: the number that the same bits mean in two's complement.
-/

namespace ApiCensus.LittleEndian

/-- The number in the `width` bytes from `pos` on. -/
def valueAt (data : ByteArray) (pos : Nat) : Nat → Nat
  | 0 => 0
  | width + 1 => (data[pos]?.getD 0).toNat + 0x100 * valueAt data (pos + 1) width

/-- The number in the `width` bytes from `pos` on, if the data reaches that far. -/
def read? (data : ByteArray) (pos width : Nat) : Option Nat :=
  if pos + width ≤ data.size then some (valueAt data pos width) else none

/-- The `width` low bytes of a number. -/
def encode : Nat → Nat → List UInt8
  | 0, _ => []
  | width + 1, n => UInt8.ofNat n :: encode width (n / 0x100)

/-- Numbers, each behind its width, one after the other. -/
def encodeAll (fields : List (Nat × Nat)) : List UInt8 :=
  fields.flatMap fun (width, n) => encode width n

@[simp] theorem length_encode (width n : Nat) : (encode width n).length = width := by
  induction width generalizing n with
  | zero => rfl
  | succ w ih => simp [encode, ih]

theorem length_encodeAll (fields : List (Nat × Nat)) :
    (encodeAll fields).length = (fields.map Prod.fst).foldr (· + ·) 0 := by
  induction fields with
  | nil => rfl
  | cons field fields ih =>
    show (encode field.1 field.2 ++ encodeAll fields).length = _
    rw [List.length_append, length_encode, ih, List.map_cons, List.foldr_cons]

/-- One more than the largest number that `width` bytes hold. -/
def bound : Nat → Nat
  | 0 => 1
  | width + 1 => 0x100 * bound width

/-- What `width` bytes hold is below their bound. -/
theorem valueAt_lt_bound (data : ByteArray) (pos width : Nat) :
    valueAt data pos width < bound width := by
  induction width generalizing pos with
  | zero => exact Nat.one_pos
  | succ w ih =>
    have hb := (data[pos]?.getD 0).toNat_lt
    have hr := ih (pos + 1)
    simp only [valueAt, bound]
    omega

/-- The number that `width` bytes mean in two's complement. -/
def signed (width n : Nat) : Int :=
  Int.bmod n (bound width)

end ApiCensus.LittleEndian
