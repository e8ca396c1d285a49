/-
  The token of a public key in a qualified name.

  * `Hex.zeroSigns`: a zero for every plus sign in front of a digit.
  * `EnumName.keyByte?_eq_some_iff`, `keyBytes?_eq_some_iff`: which texts bytes are read from, and
    which bytes.
  * `EnumName.keyToken?_eq_some_iff`: a token is read from the text that spells it, and from no
    other text without a plus sign.
-/
import ApiCensus.Proofs.Attribute.QualifiedName

namespace ApiCensus

namespace Hex

/-- The text with a zero for every plus sign that stands where the first digit of a byte does. -/
def zeroSigns : List Char → List Char
  | high :: low :: text => (if high = '+' then '0' else high) :: low :: zeroSigns text
  | text => text

variable {text : List Char} {bytes : List UInt8}

theorem zeroSigns_of_not_mem (h : '+' ∉ text) : zeroSigns text = text := by
  fun_induction zeroSigns text with
  | case1 high low text ih =>
    simp only [List.mem_cons, not_or] at h
    obtain ⟨hhigh, -, htext⟩ := h
    rw [if_neg (Ne.symm hhigh), ih htext]
  | case2 text => rfl

theorem length_zeroSigns (text : List Char) : (zeroSigns text).length = text.length := by
  fun_induction zeroSigns text with
  | case1 high low text ih => simp only [List.length_cons, ih]
  | case2 text => rfl

theorem plus_not_mem_of_spells (h : Spells text bytes) : '+' ∉ text := by
  intro hplus
  obtain ⟨n, hdigit⟩ := h.exists_digit '+' hplus
  cases hdigit

end Hex

namespace EnumName

open Hex

/-- A plus sign counts as a zero. -/
theorem keyByte?_plus (low : Char) : keyByte? '+' low = keyByte? '0' low := by
  have hzero : Numeral.value? digit? 16 ['0', low] = Numeral.value? digit? 16 [low] := rfl
  rw [keyByte?, keyByte?, Numeral.unsigned?, Numeral.unsigned?, hzero]
  · simp
  · exact List.cons_ne_nil _ _
  · exact List.cons_ne_nil _ _

/-- Two characters of which the first is no sign are read if both are digits. -/
theorem keyByte?_eq_some_iff {high low : Char} {byte : UInt8} (hplus : high ≠ '+') :
    keyByte? high low = some byte ↔
      ∃ m n, digit? high = some m ∧ digit? low = some n ∧ byte.toNat = m * 16 + n := by
  constructor
  · intro h
    obtain ⟨value, hvalue, rfl⟩ := Option.map_eq_some_iff.1 h
    have hdigits : (Numeral.value? digit? 16 [high, low]).filter (· < 0x100) = some value := by
      rw [← hvalue, Numeral.unsigned?]
      · simpa using hplus
      · exact List.cons_ne_nil _ _
    obtain ⟨hread, hlt⟩ := Option.filter_eq_some_iff.1 hdigits
    obtain ⟨m, hm, n, hn, rfl⟩ : ∃ m, digit? high = some m ∧
        ∃ n, digit? low = some n ∧ m * 16 + n = value := by
      simpa [Numeral.value?, Option.bind_eq_some_iff] using hread
    exact ⟨m, n, hm, hn, UInt8.toNat_ofNat_of_lt' (of_decide_eq_true hlt)⟩
  · rintro ⟨m, n, hm, hn, hbyte⟩
    exact keyByte?_digits hm hn hbyte

theorem keyBytes?_zeroSigns (text : List Char) : keyBytes? (zeroSigns text) = keyBytes? text := by
  fun_induction zeroSigns text with
  | case1 high low text ih =>
    have hbyte : keyByte? (if high = '+' then '0' else high) low = keyByte? high low := by
      split
      · next hplus => rw [hplus, keyByte?_plus]
      · rfl
    rw [keyBytes?, keyBytes?, hbyte, ih]
  | case2 text => rfl

/-- Bytes that are read from a text without signs are spelled there. -/
theorem spells_of_keyBytes? {text : List Char} {bytes : List UInt8}
    (h : keyBytes? (zeroSigns text) = some bytes) : Spells (zeroSigns text) bytes := by
  fun_induction zeroSigns text generalizing bytes with
  | case1 high low text ih =>
    have hplus : (if high = '+' then '0' else high) ≠ '+' := by
      split
      · decide
      · assumption
    obtain ⟨byte, hbyte, h⟩ := Option.bind_eq_some_iff.1 h
    obtain ⟨others, hothers, h⟩ := Option.bind_eq_some_iff.1 h
    obtain rfl : byte :: others = bytes := Option.some.inj h
    obtain ⟨m, n, hm, hn, hvalue⟩ := (keyByte?_eq_some_iff hplus).1 hbyte
    exact .cons hm hn hvalue (ih hothers)
  | case2 text hshort =>
    match text with
    | [] =>
      obtain rfl : [] = bytes := Option.some.inj h
      exact .nil
    | [_] => cases h
    | high :: low :: text => exact absurd rfl (hshort high low text)

theorem keyBytes?_eq_some_iff {text : List Char} {bytes : List UInt8} :
    keyBytes? text = some bytes ↔ Spells (zeroSigns text) bytes := by
  rw [← keyBytes?_zeroSigns]
  exact ⟨spells_of_keyBytes?, keyBytes?_of_spells⟩

/-- **A token is read from a text exactly if it is spelled there by sixteen digits, where a plus
    sign may stand for a zero in front of a digit. So the texts that spell a token are those that it
    is read from and that have no sign.** -/
theorem keyToken?_eq_some_iff (text : String) (token : List UInt8) :
    (keyToken? text.toList = some token ↔
        Spells (zeroSigns text.toList) token ∧ token.length = keyTokenSize) ∧
      (SpellsToken text token ↔ keyToken? text.toList = some token ∧ '+' ∉ text.toList) := by
  have hread : keyToken? text.toList = some token ↔
      Spells (zeroSigns text.toList) token ∧ token.length = keyTokenSize := by
    rw [keyToken?, Option.ite_none_right_eq_some, keyBytes?_eq_some_iff, and_comm]
    refine and_congr_right fun hspells => ?_
    have hlength := hspells.length_eq
    rw [length_zeroSigns] at hlength
    have hsize : keyTokenSize = 8 := rfl
    omega
  refine ⟨hread, fun h => ⟨keyToken?_of_spells h, plus_not_mem_of_spells h.1⟩, ?_⟩
  rintro ⟨h, hplus⟩
  have hspells := hread.1 h
  rwa [zeroSigns_of_not_mem hplus] at hspells

/-- A token is read from signs and single digits, which spell none. -/
theorem keyToken?_signs :
    (parse? "Colors.Shade, Colors, PublicKeyToken=+1+2+3+4+5+6+7+8").map EnumName.keyToken =
        some (some [1, 2, 3, 4, 5, 6, 7, 8]) ∧
      keyToken? "+1+2+3+4+5+6+7+8".toList = some [1, 2, 3, 4, 5, 6, 7, 8] ∧
      ∀ token, ¬ SpellsToken "+1+2+3+4+5+6+7+8" token := by
  refine ⟨by decide, by decide, fun token h => ?_⟩
  exact plus_not_mem_of_spells h.1 (by decide)

end EnumName

end ApiCensus
