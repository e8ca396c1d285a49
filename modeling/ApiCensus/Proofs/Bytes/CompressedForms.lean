/-
  The forms of compressed numbers.

  * `Compressed.announced`: how long a number is, as its first byte tells.
  * `Compressed.number_of_sees`: all that reading a number can do.
  * `Compressed.number_eq_ok_iff`: reading ends well just behind a form of the number that is read.
  * `Compressed.number_eq_error_iff`: there are two ways to fail, and when.
  * `Compressed.rotated_eq`: the sign in the lowest bit, as a rotation of the number in two's
    complement.
  * `Compressed.forms_exact`: numbers are read from all their forms, and from nothing else.
-/
import ApiCensus.Proofs.Bytes.Rereading
import ApiCensus.Proofs.Bytes.TypeToken
import Mathlib.Algebra.Group.Int.Defs
import Mathlib.Algebra.Group.Nat.Defs

namespace ApiCensus

open Attempt Cursor

/-! ## Steps at the end of the data -/

namespace Cursor

variable {cursor : Cursor} {bytes : List UInt8}

theorem sees_of_rest (h : cursor.rest = bytes) (hne : bytes ≠ []) : cursor.Sees bytes := by
  have hlength := congrArg List.length h
  have hpos := List.length_pos_iff.2 hne
  rw [length_rest, remaining] at hlength
  exact ⟨by omega, h⟩

theorem byte_of_rest_nil (h : cursor.rest = []) : byte cursor = (.error .outOfBounds, cursor) := by
  have hlength := congrArg List.length h
  rw [length_rest, remaining, List.length_nil] at hlength
  rw [byte, getElem?_neg cursor.data cursor.pos (fun hlt => by
    have hlt : cursor.pos < cursor.data.size := hlt
    omega)]

theorem take_of_short {count : Nat} (h : cursor.Sees bytes) (hshort : bytes.length < count) :
    take count cursor = (.error .outOfBounds, cursor) := by
  have hlength := congrArg List.length h.rest_eq
  rw [length_rest, remaining] at hlength
  have hinside := h.inside
  rw [take, if_neg (by omega)]

end Cursor

namespace Compressed

variable {cursor stop : Cursor} {n : Nat}

/-! ## Forms -/

/-- The number of bytes that the first one announces. -/
def announced (lead : UInt8) : Option Nat :=
  if lead < 0x80 then some 1
  else if lead < 0xC0 then some 2
  else if lead < 0xE0 then some 4
  else none

theorem announced_eq_none_iff {lead : UInt8} : announced lead = none ↔ 0xE0 ≤ lead := by
  rw [announced]
  grind

/-- The bytes end before the number does that they begin with. -/
def Truncated (bytes : List UInt8) : Prop :=
  bytes = [] ∨ ∃ lead tail size, bytes = lead :: tail ∧ announced lead = some size ∧
    bytes.length < size

/-- The bytes begin with a form of the number. -/
def BeginsWith (size n : Nat) (bytes : List UInt8) : Prop :=
  (size = 1 ∨ size = 2 ∨ size = 4) ∧ n < capacity size ∧ encodeIn size n <+: bytes

theorem ofNat_eq {byte : UInt8} {m : Nat} (h : m % 0x100 = byte.toNat) : UInt8.ofNat m = byte :=
  UInt8.toNat_inj.1 (by rw [UInt8.toNat_ofNat', h])

/-- Bytes that are those of a form of a number. -/
theorem BeginsWith.of_eq {size m : Nat} (front back : List UInt8)
    (hs : size = 1 ∨ size = 2 ∨ size = 4) (hm : m < capacity size) (h : encodeIn size m = front) :
    BeginsWith size m (front ++ back) :=
  ⟨hs, hm, back, by rw [h]⟩

/-- As many bytes as the first one announces are a form of a number. -/
theorem exists_beginsWith {lead : UInt8} {tail : List UInt8} {size : Nat}
    (hsize : announced lead = some size) (h : size ≤ (lead :: tail).length) :
    ∃ n, BeginsWith size n (lead :: tail) := by
  have hlead := lead.toNat_lt
  rw [announced] at hsize
  simp only [UInt8.lt_iff_toNat_lt, UInt8.reduceToNat] at hsize
  split at hsize
  · next hone =>
    obtain rfl := Option.some.inj hsize
    have hfirst : UInt8.ofNat lead.toNat = lead := ofNat_eq (Nat.mod_eq_of_lt hlead)
    exact ⟨lead.toNat, .of_eq [lead] tail (.inl rfl) hone (by rw [encodeIn, hfirst])⟩
  split at hsize
  · next hone htwo =>
    obtain rfl := Option.some.inj hsize
    obtain ⟨a, back, rfl⟩ : ∃ a back, tail = a :: back := by
      match tail, h with
      | a :: back, _ => exact ⟨a, back, rfl⟩
    have ha := a.toNat_lt
    obtain ⟨m, hm⟩ : ∃ m, m = lead.toNat % 0x40 * 0x100 + a.toNat := ⟨_, rfl⟩
    have hfirst : UInt8.ofNat (0x80 + m / 0x100) = lead := ofNat_eq (by omega)
    have hlast : UInt8.ofNat m = a := ofNat_eq (by omega)
    refine ⟨m, .of_eq [lead, a] back (.inr (.inl rfl)) ?_ ?_⟩
    · show m < 0x4000
      omega
    · rw [encodeIn, hfirst, hlast]
  split at hsize
  · next hone htwo hfour =>
    obtain rfl := Option.some.inj hsize
    obtain ⟨a, b, c, back, rfl⟩ : ∃ a b c back, tail = a :: b :: c :: back := by
      match tail, h with
      | a :: b :: c :: back, _ => exact ⟨a, b, c, back, rfl⟩
    have ha := a.toNat_lt
    have hb := b.toNat_lt
    have hc := c.toNat_lt
    obtain ⟨m, hm⟩ : ∃ m, m = lead.toNat % 0x20 * 0x1000000 +
        ((a.toNat * 0x100 + b.toNat) * 0x100 + c.toNat) := ⟨_, rfl⟩
    have hfirst : UInt8.ofNat (0xC0 + m / 0x1000000) = lead := ofNat_eq (by omega)
    have hsecond : UInt8.ofNat (m / 0x10000) = a := ofNat_eq (by omega)
    have hthird : UInt8.ofNat (m / 0x100) = b := ofNat_eq (by omega)
    have hlast : UInt8.ofNat m = c := ofNat_eq (by omega)
    refine ⟨m, .of_eq [lead, a, b, c] back (.inr (.inr rfl)) ?_ ?_⟩
    · show m < 0x20000000
      omega
    · rw [encodeIn, hfirst, hsecond, hthird, hlast]
      · simp
      · simp
  · cases hsize

/-- Bytes begin with a number, or end before it does, or announce none. -/
theorem truncated_or_beginsWith (bytes : List UInt8) :
    Truncated bytes ∨ (∃ lead tail, bytes = lead :: tail ∧ announced lead = none) ∨
      ∃ size n, BeginsWith size n bytes := by
  rcases bytes with _ | ⟨lead, tail⟩
  · exact .inl (.inl rfl)
  · cases hsize : announced lead with
    | none => exact .inr (.inl ⟨lead, tail, rfl, hsize⟩)
    | some size =>
      rcases Nat.lt_or_ge (lead :: tail).length size with hshort | hlong
      · exact .inl (.inr ⟨lead, tail, size, rfl, hsize, hshort⟩)
      · exact .inr (.inr ⟨size, exists_beginsWith hsize hlong⟩)

/-! ## What reading can do -/

theorem number_of_announced_none {lead : UInt8} {tail : List UInt8}
    (h : cursor.rest = lead :: tail) (hnone : announced lead = none) :
    number cursor = (.error (.malformed (.compressedNumber lead)), cursor.forward 1) := by
  have hbyte := reads_byte lead cursor tail (sees_of_rest h (List.cons_ne_nil _ _))
  rw [number, bind_apply_ok hbyte]
  rw [announced] at hnone
  split at hnone
  · cases hnone
  split at hnone
  · cases hnone
  split at hnone
  · cases hnone
  · next hone htwo hfour =>
    rw [if_neg hone, if_neg htwo, if_neg hfour]
    rfl

theorem number_of_truncated (h : Truncated cursor.rest) :
    ∃ stop, number cursor = (.error .outOfBounds, stop) := by
  rcases h with hnil | ⟨lead, tail, size, hrest, hsize, hshort⟩
  · exact ⟨cursor, bind_apply_error (byte_of_rest_nil hnil)⟩
  · have hs : cursor.Sees ([lead] ++ tail) := sees_of_rest hrest (List.cons_ne_nil _ _)
    have hbyte := reads_byte lead cursor tail hs
    have htail : (cursor.forward 1).Sees tail := hs.forward
    rw [hrest, List.length_cons] at hshort
    rw [number, bind_apply_ok hbyte]
    rw [announced] at hsize
    split at hsize
    · obtain rfl := Option.some.inj hsize
      omega
    split at hsize
    · next hone htwo =>
      obtain rfl := Option.some.inj hsize
      have hnil : tail = [] := List.eq_nil_of_length_eq_zero (by omega)
      rw [if_neg hone, if_pos htwo]
      exact ⟨_, bind_apply_error (byte_of_rest_nil (htail.rest_eq.trans hnil))⟩
    split at hsize
    · next hone htwo hfour =>
      obtain rfl := Option.some.inj hsize
      rw [if_neg hone, if_neg htwo, if_pos hfour]
      exact ⟨_, bind_apply_error (take_of_short htail (by omega))⟩
    · cases hsize

/-- Where the data begins with a form of a number, the number is read and nothing behind it. -/
theorem number_of_beginsWith {size : Nat} (h : BeginsWith size n cursor.rest) :
    number cursor = (.ok n, cursor.forward size) := by
  obtain ⟨hs, hn, back, hback⟩ := h
  have hne : encodeIn size n ++ back ≠ [] := fun hnil => by
    have hlength := length_encodeIn (n := n) hs
    rw [(List.append_eq_nil_iff.1 hnil).1, List.length_nil] at hlength
    omega
  have hread := reads_encodeIn hs hn cursor back (sees_of_rest hback.symm hne)
  rwa [length_encodeIn hs] at hread

/-- **Reading a number ends well just behind a form of it.** -/
theorem number_eq_ok_iff : number cursor = (.ok n, stop) ↔
    ∃ size, BeginsWith size n cursor.rest ∧ stop = cursor.forward size := by
  constructor
  · intro h
    rcases truncated_or_beginsWith cursor.rest with hshort | ⟨lead, tail, hrest, hnone⟩ |
      ⟨size, m, hform⟩
    · obtain ⟨_, hfails⟩ := number_of_truncated hshort
      cases h.symm.trans hfails
    · cases h.symm.trans (number_of_announced_none hrest hnone)
    · obtain ⟨hm, hstop⟩ := Prod.mk.inj (h.symm.trans (number_of_beginsWith hform))
      obtain rfl := Except.ok.inj hm
      exact ⟨size, hform, hstop⟩
  · rintro ⟨size, hform, rfl⟩
    exact number_of_beginsWith hform

/-- **Reading a number fails where the data ends before the number, and where it begins with a byte
    that no number begins with.** -/
theorem number_eq_error_iff {fault : Fault} : (number cursor).1 = .error fault ↔
    (fault = .outOfBounds ∧ Truncated cursor.rest) ∨
      ∃ lead tail, cursor.rest = lead :: tail ∧ 0xE0 ≤ lead ∧
        fault = .malformed (.compressedNumber lead) := by
  constructor
  · intro h
    rcases truncated_or_beginsWith cursor.rest with hshort | ⟨lead, tail, hrest, hnone⟩ |
      ⟨size, m, hform⟩
    · obtain ⟨_, hfails⟩ := number_of_truncated hshort
      rw [hfails] at h
      exact .inl ⟨(Except.error.inj h).symm, hshort⟩
    · rw [number_of_announced_none hrest hnone] at h
      exact .inr ⟨lead, tail, hrest, announced_eq_none_iff.1 hnone, (Except.error.inj h).symm⟩
    · rw [number_of_beginsWith hform] at h
      cases h
  · rintro (⟨rfl, hshort⟩ | ⟨lead, tail, hrest, hlead, rfl⟩)
    · obtain ⟨_, hfails⟩ := number_of_truncated hshort
      rw [hfails]
    · rw [number_of_announced_none hrest (announced_eq_none_iff.2 hlead)]

/-! ## Signed numbers -/

/-- The bits of a signed number in two's complement, rotated left by one. -/
def rotated (bits : Nat) (i : Int) : Nat :=
  ((BitVec.ofInt (bits + 1) i).rotateLeft 1).toNat

theorem rotated_eq {size : Nat} {i : Int} (hlow : -(2 ^ magnitudeBits size : Nat) ≤ i)
    (hhigh : i < (2 ^ magnitudeBits size : Nat)) :
    rotated (magnitudeBits size) i = rotateSign size i := by
  have hpos : 0 < magnitudeBits size := by
    unfold magnitudeBits
    split <;> decide
  have hone : 1 % (magnitudeBits size + 1) = 1 := Nat.mod_eq_of_lt (by omega)
  rw [rotated, BitVec.toNat_rotateLeft, BitVec.toNat_ofInt, rotateSign, hone, Nat.shiftLeft_eq,
    Nat.shiftLeft_eq, Nat.shiftRight_eq_div_pow, Nat.add_sub_cancel, Nat.pow_succ, Nat.one_mul]
  generalize 2 ^ magnitudeBits size = weight at hlow hhigh ⊢
  by_cases hi : 0 ≤ i
  · obtain ⟨m, rfl⟩ := Int.eq_ofNat_of_zero_le hi
    have hm : m < weight := by omega
    have hmod : ((m : Int) % (weight * 2 : Nat)).toNat = m := by
      rw [Int.emod_eq_of_lt hi (by omega), Int.toNat_natCast]
    have hdouble : m * 2 ^ 1 % (weight * 2) = 2 * m := by
      rw [Nat.mod_eq_of_lt (by omega), Nat.pow_one, Nat.mul_comm]
    rw [if_pos hi, hmod, hdouble, Nat.div_eq_of_lt hm, Nat.or_zero, Int.toNat_natCast]
  · obtain ⟨m, hm⟩ := Int.eq_ofNat_of_zero_le (show 0 ≤ i + weight by omega)
    have hlt : m < weight := by omega
    have hmod : (i % (weight * 2 : Nat)).toNat = weight + m := by
      rw [← Int.add_emod_right, show i + (weight * 2 : Nat) = (weight + m : Nat) by omega,
        Int.emod_eq_of_lt (by omega) (by omega), Int.toNat_natCast]
    have hdouble : (weight + m) * 2 ^ 1 % (weight * 2) = 2 * m := by
      rw [show (weight + m) * 2 ^ 1 = 2 * m + weight * 2 by omega, Nat.add_mod_right,
        Nat.mod_eq_of_lt (by omega)]
    have hone : (weight + m) / weight = 1 := by
      rw [Nat.add_div_left _ (by omega), Nat.div_eq_of_lt hlt]
    have hjoin : 2 * m ||| 1 = 2 * m + 1 := by
      exact (Nat.two_pow_add_eq_or_of_lt (i := 1) (b := 1) (by decide) m).symm
    rw [if_neg hi, hmod, hdouble, hone, hjoin, hm]
    rfl

theorem reads_rotated {size bits : Nat} (h : (size, bits) ∈ [(1, 6), (2, 13), (4, 28)]) {i : Int}
    (hlow : -2 ^ bits ≤ i) (hhigh : i ≤ 2 ^ bits - 1) :
    Reads signedNumber (encodeIn size (rotated bits i)) i := by
  have hforms : (size = 1 ∨ size = 2 ∨ size = 4) ∧ bits = magnitudeBits size := by
    simp only [List.mem_cons, Prod.mk.injEq, List.not_mem_nil, or_false] at h
    rcases h with ⟨rfl, rfl⟩ | ⟨rfl, rfl⟩ | ⟨rfl, rfl⟩ <;> decide
  obtain ⟨hs, rfl⟩ := hforms
  have hcast : ((2 ^ magnitudeBits size : Nat) : Int) = 2 ^ magnitudeBits size := by simp
  rw [rotated_eq (by omega) (by omega)]
  refine reads_signedNumber_encodeIn hs ?_ ?_ <;> rw [Nat.one_shiftLeft] <;> omega

/-- **A number of 29 bits is read from the bytes that are written for it, and what follows is left.
    Whatever is read has 29 bits and one of the three forms. Reading fails just where the data
    ends before the number, and where it begins with a byte that no number begins with. A signed
    number is read from each form that has enough bits beside the sign.** -/
theorem forms_exact :
    (∀ n ≤ 0x1FFFFFFF, ∀ cursor back, cursor.Sees (encode n ++ back) →
      number cursor = (.ok n, cursor.forward (encode n).length) ∧
        (cursor.forward (encode n).length).Sees back) ∧
    (∀ cursor n stop, number cursor = (.ok n, stop) → n ≤ 0x1FFFFFFF ∧
      ∃ size, (size = 1 ∨ size = 2 ∨ size = 4) ∧ encodeIn size n <+: cursor.rest ∧
        stop = cursor.forward size) ∧
    (∀ cursor fault, (number cursor).1 = .error fault ↔
      (fault = .outOfBounds ∧ Truncated cursor.rest) ∨
        ∃ lead tail, cursor.rest = lead :: tail ∧ 0xE0 ≤ lead ∧
          fault = .malformed (.compressedNumber lead)) ∧
    ∀ size bits, (size, bits) ∈ [(1, 6), (2, 13), (4, 28)] → ∀ i : Int, -2 ^ bits ≤ i →
      i ≤ 2 ^ bits - 1 → Reads signedNumber (encodeIn size (rotated bits i)) i := by
  refine ⟨fun n hn cursor back hs => ?_, fun cursor n stop h => ?_,
    fun _ _ => number_eq_error_iff, fun _ _ hforms _ hlow hhigh => reads_rotated hforms hlow hhigh⟩
  · have hbound : n < bound := Nat.lt_succ_of_le hn
    exact ⟨reads_number hbound cursor back hs, hs.forward⟩
  · obtain ⟨size, ⟨hsize, -, hfront⟩, hstop⟩ := number_eq_ok_iff.1 h
    exact ⟨Nat.le_of_lt_succ (lt_bound_of_number h), size, hsize, hfront, hstop⟩

/-- The largest number, and the start of another one. -/
def cutNumbers : List UInt8 :=
  [0xDF, 0xFF, 0xFF, 0xFF, 0xC0, 0x00]

theorem forms_exact_cutNumbers :
    number { data := cutNumbers.toByteArray } =
      (.ok 0x1FFFFFFF, { data := cutNumbers.toByteArray, pos := 4 }) ∧
    (number { data := cutNumbers.toByteArray, pos := 4 }).1 = .error .outOfBounds ∧
    Reads signedNumber [0x80, 0x01] (-8192) := by
  obtain ⟨hwritten, -, hfails, hsigned⟩ := forms_exact
  have hlargest := hwritten 0x1FFFFFFF (Nat.le_refl _) { data := cutNumbers.toByteArray }
    [0xC0, 0x00] (sees_start cutNumbers)
  have hshort : Truncated (Cursor.rest { data := cutNumbers.toByteArray, pos := 4 }) :=
    .inr ⟨0xC0, [0x00], 4, (sees_behind [0xDF, 0xFF, 0xFF, 0xFF] [0xC0, 0x00]).rest_eq, rfl,
      by decide⟩
  have hrotated : encodeIn 2 (rotated 13 (-8192)) = [0x80, 0x01] := by decide
  rw [← hrotated]
  exact ⟨hlargest.1, (hfails _ _).2 (.inl ⟨rfl, hshort⟩),
    hsigned 2 13 (by decide) (-8192) (by decide) (by decide)⟩

end Compressed

end ApiCensus
