/-
  Compressed numbers, tokens and strings are read back.

  * `Compressed.encodeIn`, `encodeSigned`, `encodeToken`: the bytes of a number of given size,
    of a signed number and of a type token.
  * `SerializedText.encode`: the bytes of a string, or of the null string.
  * `Compressed.reads_number`, `reads_signedNumber`, `reads_token`, `SerializedText.reads_read`,
    `SerializedText.reads_skip`: each is read back, whatever follows it.
-/
import ApiCensus.Bytes.Compressed
import ApiCensus.Proofs.Bytes.Reading

namespace ApiCensus

open Cursor

namespace Compressed

/-! ## Numbers -/

/-- The form of a number in `size` bytes, where the size is 1, 2 or 4. -/
def encodeIn (size n : Nat) : List UInt8 :=
  match size with
  | 1 => [UInt8.ofNat n]
  | 2 => [UInt8.ofNat (0x80 + n / 0x100), UInt8.ofNat n]
  | _ => [UInt8.ofNat (0xC0 + n / 0x1000000), UInt8.ofNat (n / 0x10000), UInt8.ofNat (n / 0x100),
    UInt8.ofNat n]

/-- One more than the largest number that has a form of `size` bytes. -/
def capacity (size : Nat) : Nat :=
  match size with
  | 1 => 0x80
  | 2 => 0x4000
  | _ => bound

theorem reads_one {n : Nat} (h : n < 0x80) : Reads number [UInt8.ofNat n] n := by
  have hn : (UInt8.ofNat n).toNat = n := by rw [UInt8.toNat_ofNat']; omega
  have hl : UInt8.ofNat n < 0x80 := by rw [UInt8.lt_iff_toNat_lt, hn]; exact h
  refine (reads_byte (UInt8.ofNat n)).bind_nil ?_
  rw [if_pos hl, hn]
  exact reads_pure n

theorem reads_two {n : Nat} (h : n < 0x4000) :
    Reads number [UInt8.ofNat (0x80 + n / 0x100), UInt8.ofNat n] n := by
  have hn : (UInt8.ofNat (0x80 + n / 0x100)).toNat = 0x80 + n / 0x100 := by
    rw [UInt8.toNat_ofNat']; omega
  have hl : ¬ UInt8.ofNat (0x80 + n / 0x100) < 0x80 := by
    rw [UInt8.lt_iff_toNat_lt, hn, show (0x80 : UInt8).toNat = 0x80 from rfl]; omega
  have hm : UInt8.ofNat (0x80 + n / 0x100) < 0xC0 := by
    rw [UInt8.lt_iff_toNat_lt, hn, show (0xC0 : UInt8).toNat = 0xC0 from rfl]; omega
  show Reads number ([UInt8.ofNat (0x80 + n / 0x100)] ++ [UInt8.ofNat n]) n
  refine (reads_byte _).bind ?_
  rw [if_neg hl, if_pos hm, hn]
  have hv : (0x80 + n / 0x100) % 0x40 * 0x100 + (UInt8.ofNat n).toNat = n := by
    rw [UInt8.toNat_ofNat']; omega
  have hr := (reads_byte (UInt8.ofNat n)).map
    fun second => (0x80 + n / 0x100) % 0x40 * 0x100 + second.toNat
  rwa [hv] at hr

theorem bigEndian_three (a b c : UInt8) :
    bigEndian [a, b, c].toByteArray = (a.toNat * 0x100 + b.toNat) * 0x100 + c.toNat := by
  simp [bigEndian, ByteArray.foldl, ByteArray.foldlM, ByteArray.foldlM.loop]

theorem reads_four {n : Nat} (h : n < bound) :
    Reads number [UInt8.ofNat (0xC0 + n / 0x1000000), UInt8.ofNat (n / 0x10000),
      UInt8.ofNat (n / 0x100), UInt8.ofNat n] n := by
  rw [bound] at h
  have hn : (UInt8.ofNat (0xC0 + n / 0x1000000)).toNat = 0xC0 + n / 0x1000000 := by
    rw [UInt8.toNat_ofNat']; omega
  have hl : ¬ UInt8.ofNat (0xC0 + n / 0x1000000) < 0x80 := by
    rw [UInt8.lt_iff_toNat_lt, hn, show (0x80 : UInt8).toNat = 0x80 from rfl]; omega
  have hm : ¬ UInt8.ofNat (0xC0 + n / 0x1000000) < 0xC0 := by
    rw [UInt8.lt_iff_toNat_lt, hn, show (0xC0 : UInt8).toNat = 0xC0 from rfl]; omega
  have hh : UInt8.ofNat (0xC0 + n / 0x1000000) < 0xE0 := by
    rw [UInt8.lt_iff_toNat_lt, hn, show (0xE0 : UInt8).toNat = 0xE0 from rfl]; omega
  let low := [UInt8.ofNat (n / 0x10000), UInt8.ofNat (n / 0x100), UInt8.ofNat n]
  show Reads number ([UInt8.ofNat (0xC0 + n / 0x1000000)] ++ low) n
  refine (reads_byte _).bind ?_
  rw [if_neg hl, if_neg hm, if_pos hh, hn]
  have hv : (0xC0 + n / 0x1000000) % 0x20 * 0x1000000 + bigEndian low.toByteArray = n := by
    rw [bigEndian_three]
    simp only [UInt8.toNat_ofNat']
    omega
  have hr := (reads_take low).map fun low => (0xC0 + n / 0x1000000) % 0x20 * 0x1000000 + bigEndian low
  rwa [hv] at hr

theorem reads_encodeIn {size n : Nat} (hs : size = 1 ∨ size = 2 ∨ size = 4)
    (hn : n < capacity size) : Reads number (encodeIn size n) n := by
  rcases hs with rfl | rfl | rfl
  · exact reads_one hn
  · exact reads_two hn
  · exact reads_four hn

/-- **A compressed number is read back.** -/
theorem reads_number {n : Nat} (h : n < bound) : Reads number (encode n) n := by
  unfold encode
  split
  · exact reads_one ‹_›
  · split
    · exact reads_two ‹_›
    · exact reads_four h

/-! ## Signed numbers -/

/-- The number of bytes of a signed number. -/
def signedSize (n : Int) : Nat :=
  if -0x40 ≤ n ∧ n < 0x40 then 1
  else if -0x2000 ≤ n ∧ n < 0x2000 then 2
  else 4

/-- The bits of a signed number in two's complement, rotated left by one: the sign comes to
    stand in the lowest bit. -/
def rotateSign (size : Nat) (n : Int) : Nat :=
  if 0 ≤ n then 2 * n.toNat else 2 * (n + (1 <<< magnitudeBits size : Nat)).toNat + 1

/-- The compressed form of a signed number. -/
def encodeSigned (n : Int) : List UInt8 :=
  encodeIn (signedSize n) (rotateSign (signedSize n) n)

/-- A signed number that has a compressed form. -/
def IsSigned (n : Int) : Prop :=
  -0x10000000 ≤ n ∧ n < 0x10000000

instance (n : Int) : Decidable (IsSigned n) :=
  inferInstanceAs (Decidable (-0x10000000 ≤ n ∧ n < 0x10000000))

theorem signedSize_cases (n : Int) :
    signedSize n = 1 ∨ signedSize n = 2 ∨ signedSize n = 4 := by
  unfold signedSize
  split
  · exact Or.inl rfl
  · split
    · exact Or.inr (Or.inl rfl)
    · exact Or.inr (Or.inr rfl)

/-- The number is small enough for the bits beside the sign. -/
theorem magnitude_bounds {n : Int} (h : IsSigned n) :
    -(1 <<< magnitudeBits (signedSize n) : Nat) ≤ n ∧
      n < (1 <<< magnitudeBits (signedSize n) : Nat) := by
  obtain ⟨hlow, hhigh⟩ := h
  unfold signedSize
  split
  · simp only [magnitudeBits, Nat.reduceShiftLeft]; omega
  · split
    · simp only [magnitudeBits, Nat.reduceShiftLeft]; omega
    · simp only [magnitudeBits, Nat.reduceShiftLeft]; omega

theorem rotate_rotateSign {size : Nat} {n : Int} (h : -(1 <<< magnitudeBits size : Nat) ≤ n) :
    rotate size (rotateSign size n) = n := by
  unfold rotate rotateSign
  by_cases hn : 0 ≤ n
  · rw [if_pos hn, if_pos (by omega)]; omega
  · rw [if_neg hn, if_neg (by omega)]; omega

theorem rotateSign_lt {size : Nat} {n : Int} (hs : size = 1 ∨ size = 2 ∨ size = 4)
    (hlow : -(1 <<< magnitudeBits size : Nat) ≤ n) (hhigh : n < (1 <<< magnitudeBits size : Nat)) :
    rotateSign size n < capacity size := by
  unfold rotateSign
  rcases hs with rfl | rfl | rfl <;>
    simp only [capacity, bound, magnitudeBits, Nat.reduceShiftLeft] at hlow hhigh ⊢ <;>
    split <;> omega

theorem length_encodeIn {size n : Nat} (hs : size = 1 ∨ size = 2 ∨ size = 4) :
    (encodeIn size n).length = size := by
  rcases hs with rfl | rfl | rfl <;> rfl

/-- A signed number is read back from every form that has enough bits beside the sign. -/
theorem reads_signedNumber_encodeIn {size : Nat} {n : Int} (hs : size = 1 ∨ size = 2 ∨ size = 4)
    (hlow : -(1 <<< magnitudeBits size : Nat) ≤ n) (hhigh : n < (1 <<< magnitudeBits size : Nat)) :
    Reads signedNumber (encodeIn size (rotateSign size n)) n := by
  intro cursor back hc
  let form := encodeIn size (rotateSign size n)
  have hr : number cursor = (.ok (rotateSign size n), cursor.forward form.length) :=
    reads_encodeIn hs (rotateSign_lt hs hlow hhigh) cursor back hc
  have hp : cursor.pos + form.length - cursor.pos = size := by
    rw [length_encodeIn hs, Nat.add_sub_cancel_left]
  have hstart : position cursor = (.ok cursor.pos, cursor) := rfl
  have hstop : position (cursor.forward form.length) =
      (.ok (cursor.pos + form.length), cursor.forward form.length) := rfl
  rw [signedNumber, Attempt.bind_apply_ok hstart, Attempt.bind_apply_ok hr,
    Attempt.bind_apply_ok hstop, hp, rotate_rotateSign hlow]
  rfl

/-- **A signed number is read back.** -/
theorem reads_signedNumber {n : Int} (h : IsSigned n) :
    Reads signedNumber (encodeSigned n) n :=
  reads_signedNumber_encodeIn (signedSize_cases n) (magnitude_bounds h).1 (magnitude_bounds h).2

/-! ## Tokens -/

/-- The tag of a table of types in a compressed token. -/
def typeTag : TableId → Nat
  | .typeRef => 1
  | .typeSpec => 2
  | _ => 0

/-- A table of types: one that compressed tokens point into. -/
def IsTypeTable (table : TableId) : Prop :=
  table = .typeDef ∨ table = .typeRef ∨ table = .typeSpec

/-- The compressed form of the token of a row of a table of types. -/
def encodeToken (table : TableId) (row : Nat) : List UInt8 :=
  encode (4 * row + typeTag table)

theorem tokenTable?_encode {table : TableId} (h : IsTypeTable table) (row : Nat) :
    tokenTable? (4 * row + typeTag table) = some table := by
  rcases h with rfl | rfl | rfl <;> simp [tokenTable?, typeTag]

/-- The row number stays clear of the table byte. -/
theorem join_table_row (table : TableId) {row : Nat} (h : row < Token.rowBound) :
    table.number * Token.rowBound ||| row = table.number * Token.rowBound + row := by
  have hb : Token.rowBound = 2 ^ 24 := rfl
  rw [hb] at h ⊢
  rw [Nat.mul_comm, Nat.two_pow_add_eq_or_of_lt h]

/-- **A compressed token is read back.** -/
theorem reads_token {table : TableId} {row : Nat} (ht : IsTypeTable table)
    (hr : row < Token.rowBound) : Reads token (encodeToken table row) (Token.ofRow table row) := by
  have htag : typeTag table < 3 := by rcases ht with rfl | rfl | rfl <;> decide
  have hbound : 4 * row + typeTag table < bound := by
    simp only [Token.rowBound] at hr
    simp only [bound]
    omega
  have hrow : (4 * row + typeTag table) / 4 = row := by omega
  refine (reads_number hbound).bind_nil ?_
  rw [tokenTable?_encode ht]
  simp only
  have hvalue : Token.ofNat (table.number * Token.rowBound + row) = Token.ofRow table row := by
    rw [Token.ofRow, Nat.mod_eq_of_lt hr]
  rw [hrow, join_table_row table hr, hvalue]
  exact reads_pure _

/-! ## Strings -/

theorem encode_ne_nil (n : Nat) : encode n ≠ [] := by
  unfold encode
  split
  · simp
  · split <;> simp

/-- The first byte of a compressed number is not the one that stands for the null string. -/
theorem head_encode_ne_null {n : Nat} (h : n < bound) {lead : UInt8} {tail : List UInt8}
    (he : encode n = lead :: tail) : (lead == SerializedText.null) = false := by
  have hlt : lead.toNat < 0xE0 := by
    unfold encode at he
    simp only [bound] at h
    split at he
    · rw [← (List.cons.inj he).1, UInt8.toNat_ofNat']; omega
    · split at he
      · rw [← (List.cons.inj he).1, UInt8.toNat_ofNat']; omega
      · rw [← (List.cons.inj he).1, UInt8.toNat_ofNat']; omega
  refine beq_eq_false_iff_ne.2 fun hn => ?_
  rw [hn, show SerializedText.null.toNat = 0xFF from rfl] at hlt
  omega

end Compressed

namespace SerializedText

/-- The bytes of a string, or of the null string. -/
def encode : Option String → List UInt8
  | none => [null]
  | some text => Compressed.encode text.toUTF8.size ++ text.toUTF8.data.toList

/-- The length of a string has a compressed form. -/
def Fits (text : Option String) : Prop :=
  ∀ s ∈ text, s.toUTF8.size < Compressed.bound

instance (text : Option String) : Decidable (Fits text) :=
  inferInstanceAs (Decidable (∀ s ∈ text, s.toUTF8.size < Compressed.bound))

/-- What is read in front of a string that is not null. -/
theorem reads_peek {β : Type} {onNull onText : Attempt Cursor β} {n : Nat} {data : List UInt8}
    {b : β} (hn : n < Compressed.bound) (h : Reads onText (Compressed.encode n ++ data) b) :
    Reads (do if (← Cursor.peek) == null then onNull else onText)
      (Compressed.encode n ++ data) b := by
  obtain ⟨lead, tail, he⟩ := List.exists_cons_of_ne_nil (Compressed.encode_ne_nil n)
  rw [he] at h ⊢
  refine Reads.peek ?_
  rw [Compressed.head_encode_ne_null hn he]
  exact h

/-- **A string is read back.** -/
theorem reads_read {text : Option String} (h : Fits text) : Reads read (encode text) text := by
  cases text with
  | none => exact Reads.peek ((reads_advance [null]).map fun _ => none)
  | some s =>
    have hs : s.toUTF8.size < Compressed.bound := h s rfl
    refine reads_peek hs ((Compressed.reads_number hs).bind ?_)
    intro cursor back hc
    have hp : position cursor = (.ok cursor.pos, cursor) := rfl
    have ht := reads_take s.toUTF8.data.toList cursor back hc
    have hd : s.toUTF8.data.toList.toByteArray = s.toUTF8 := ByteArray.ext (by simp)
    rw [hd, Array.length_toList, ByteArray.size_data] at ht
    rw [Attempt.bind_apply_ok hp, Attempt.bind_apply_ok ht, Utf8.decode_toUTF8]
    rfl

/-- **A string is passed over as a whole.** -/
theorem reads_skip {text : Option String} (h : Fits text) : Reads skip (encode text) () := by
  cases text with
  | none => exact Reads.peek (reads_advance [null])
  | some s =>
    have hs : s.toUTF8.size < Compressed.bound := h s rfl
    have ha := reads_advance s.toUTF8.data.toList
    rw [Array.length_toList, ByteArray.size_data] at ha
    exact reads_peek hs ((Compressed.reads_number hs).bind ha)

end SerializedText

end ApiCensus
