/-
  Text that is put together and taken apart again.

  * `Split.fields_eq_iff`, `Split.atFirst?_eq_some_iff`, `Split.atLast?_eq_some_iff`: parts without
    the mark are found again, and there is no mark in a part that is found.
  * `Blank.IsTrimmed`: no blank at either end. `Blank.isTrimmed_trim`, `Blank.trim_eq_self`:
    trimmed text is so, and text that is so stays as it is.
  * `mem_of_mapM_eq_some`, `mapM_eq_some_self`: what several parts are read as.
  * `Numeral.nat?_toDigits`, `Numeral.lt_of_nat?`: a number below the bound is read from its
    digits, and no other one is read.
-/
import ApiCensus.Text.Blank
import ApiCensus.Text.Numeral
import ApiCensus.Text.Split
import Mathlib.Data.List.DropRight

namespace ApiCensus

/-! ## Parts between marks -/

namespace Split

variable {mark : Char} {cs part : List Char}

theorem fields_eq_splitOn (mark : Char) (cs : List Char) : fields mark cs = cs.splitOn mark := by
  induction cs with
  | nil => rfl
  | cons c rest ih =>
    rw [List.splitOn_cons_eq_if_modifyHead, fields, ih]
    by_cases hc : c = mark
    · simp [hc]
    · rw [if_neg hc, if_neg (by simpa using hc)]
      cases hrest : rest.splitOn mark with
      | nil => exact absurd hrest (List.splitOn_ne_nil mark rest)
      | cons first others => rfl

/-- Parts without the mark are found again between the marks. -/
theorem fields_intercalate {parts : List (List Char)} (h : ∀ part ∈ parts, mark ∉ part)
    (hne : parts ≠ []) : fields mark ([mark].intercalate parts) = parts := by
  rw [fields_eq_splitOn, List.splitOn_intercalate mark h hne]

theorem not_mem_of_mem_fields (h : part ∈ fields mark cs) : mark ∉ part := by
  induction cs generalizing part with
  | nil =>
    obtain rfl : part = [] := by simpa [fields] using h
    exact List.not_mem_nil
  | cons c rest ih =>
    rw [fields] at h
    by_cases hc : c = mark
    · rw [if_pos hc] at h
      rcases List.mem_cons.1 h with rfl | h
      · exact List.not_mem_nil
      · exact ih h
    · rw [if_neg hc] at h
      cases hrest : fields mark rest with
      | nil =>
        rw [hrest] at h
        obtain rfl : part = [c] := by simpa using h
        simpa using Ne.symm hc
      | cons first others =>
        rw [hrest] at h ih
        rcases List.mem_cons.1 h with rfl | h
        · rw [List.mem_cons, not_or]
          exact ⟨Ne.symm hc, ih List.mem_cons_self⟩
        · exact ih (List.mem_cons_of_mem first h)

theorem fields_ne_nil : fields mark cs ≠ [] := by
  rw [fields_eq_splitOn]
  exact List.splitOn_ne_nil mark cs

/-- The parts between the marks are those that make up the text and have no mark. -/
theorem fields_eq_iff {parts : List (List Char)} :
    fields mark cs = parts ↔
      cs = [mark].intercalate parts ∧ (∀ part ∈ parts, mark ∉ part) ∧ parts ≠ [] := by
  constructor
  · rintro rfl
    refine ⟨?_, fun part => not_mem_of_mem_fields, fields_ne_nil⟩
    rw [fields_eq_splitOn, List.intercalate_splitOn]
  · rintro ⟨rfl, hmark, hne⟩
    exact fields_intercalate hmark hne

theorem fields_of_not_mem (h : mark ∉ cs) : fields mark cs = [cs] :=
  fields_eq_iff.2 ⟨by simp, by simpa using h, List.cons_ne_nil _ _⟩

/-- A text is cut at its first mark. -/
theorem atFirst?_append {before : List Char} (h : mark ∉ before) (behind : List Char) :
    atFirst? mark (before ++ mark :: behind) = some (before, behind) := by
  induction before with
  | nil => simp [atFirst?]
  | cons c before ih =>
    obtain ⟨hc, hbefore⟩ := not_or.1 (List.mem_cons.not.1 h)
    rw [List.cons_append, atFirst?, if_neg (Ne.symm hc), ih hbefore]
    rfl

theorem atFirst?_eq_none_iff : atFirst? mark cs = none ↔ mark ∉ cs := by
  induction cs with
  | nil => simp [atFirst?]
  | cons c rest ih =>
    rw [atFirst?, List.mem_cons, not_or]
    by_cases hc : c = mark
    · simp [hc]
    · simp [hc, Ne.symm hc, ih]

theorem not_mem_of_atFirst? {before behind : List Char}
    (h : atFirst? mark cs = some (before, behind)) : mark ∉ before := by
  induction cs generalizing before with
  | nil => cases h
  | cons c rest ih =>
    unfold atFirst? at h
    split at h
    · cases h
      exact List.not_mem_nil
    · next hc =>
      obtain ⟨⟨found, others⟩, hf, hparts⟩ := Option.map_eq_some_iff.1 h
      cases hparts
      exact List.not_mem_cons_of_ne_of_not_mem (Ne.symm hc) (ih hf)

/-- The part before the first mark has no mark. -/
theorem atFirst?_eq_some_iff {before behind : List Char} :
    atFirst? mark cs = some (before, behind) ↔ cs = before ++ mark :: behind ∧ mark ∉ before := by
  constructor
  · intro h
    exact ⟨eq_of_atFirst? h, not_mem_of_atFirst? h⟩
  · rintro ⟨rfl, hbefore⟩
    exact atFirst?_append hbefore behind

theorem atLast?_eq_none_iff : atLast? mark cs = none ↔ mark ∉ cs := by
  rw [atLast?, Option.map_eq_none_iff, atFirst?_eq_none_iff, List.mem_reverse]

/-- The part behind the last mark has no mark. -/
theorem atLast?_eq_some_iff {before behind : List Char} :
    atLast? mark cs = some (before, behind) ↔ cs = before ++ mark :: behind ∧ mark ∉ behind := by
  have hreverse : cs.reverse = behind.reverse ++ mark :: before.reverse ↔
      cs = before ++ mark :: behind := by
    rw [← List.reverse_inj]
    simp
  rw [atLast?, Option.map_eq_some_iff, ← hreverse, ← @List.mem_reverse _ mark behind,
    ← atFirst?_eq_some_iff]
  constructor
  · rintro ⟨parts, hparts, heq⟩
    cases heq
    simpa using hparts
  · intro hparts
    exact ⟨_, hparts, by simp⟩

end Split

/-! ## Letters and digits -/

theorem not_isDigit_of_isAlpha {c : Char} (h : c.isAlpha = true) : c.isDigit = false := by
  change (decide (65 ≤ c.val ∧ c.val ≤ 90) || decide (97 ≤ c.val) && decide (c.val ≤ 122)) = true
    at h
  change (decide (48 ≤ c.val) && decide (c.val ≤ 57)) = false
  simp only [UInt32.le_iff_toNat_le, Bool.or_eq_true, Bool.and_eq_true, Bool.and_eq_false_iff,
    decide_eq_true_eq, decide_eq_false_iff_not, UInt32.reduceToNat] at h ⊢
  omega

/-! ## Blanks at the ends -/

namespace Blank

variable {cs : List Char}

/-- No blank stands at either end. -/
structure IsTrimmed (cs : List Char) : Prop where
  head : ∀ c ∈ cs.head?, isBlank c = false
  last : ∀ c ∈ cs.getLast?, isBlank c = false

theorem isTrimmed_of_forall (h : ∀ c ∈ cs, isBlank c = false) : IsTrimmed cs :=
  ⟨fun c hc => h c (List.mem_of_mem_head? hc), fun c hc => h c (List.mem_of_mem_getLast? hc)⟩

/-- What stands inside does not matter. -/
theorem IsTrimmed.join {front back : List Char} (hfront : IsTrimmed front) (hback : IsTrimmed back)
    (hne : front ≠ []) (hne' : back ≠ []) (c : Char) : IsTrimmed (front ++ c :: back) := by
  refine ⟨fun d hd => ?_, fun d hd => ?_⟩
  · rw [List.head?_append_of_ne_nil _ hne] at hd
    exact hfront.head d hd
  · rw [List.getLast?_append_of_ne_nil _ (List.cons_ne_nil _ _),
      List.getLast?_cons_of_ne_nil hne'] at hd
    exact hback.last d hd

theorem isBlank_of_isDigit {c : Char} (h : c.isDigit = true) : isBlank c = false := by
  have hrange : 48 ≤ c.toNat ∧ c.toNat ≤ 57 := by
    simpa [Char.isDigit, UInt32.le_iff_toNat_le] using h
  simp only [isBlank, ranges, List.any_cons, List.any_nil, Bool.or_false, Bool.or_eq_false_iff,
    Bool.and_eq_false_iff, decide_eq_false_iff_not]
  omega

theorem isBlank_of_isAlpha {c : Char} (h : c.isAlpha = true) : isBlank c = false := by
  have hletter : (decide ('A'.val ≤ c.val ∧ c.val ≤ 'Z'.val) ||
      decide ('a'.val ≤ c.val) && decide (c.val ≤ 'z'.val)) = true := h
  have hrange : 65 ≤ c.toNat ∧ c.toNat ≤ 90 ∨ 97 ≤ c.toNat ∧ c.toNat ≤ 122 := by
    simpa [UInt32.le_iff_toNat_le] using hletter
  simp only [isBlank, ranges, List.any_cons, List.any_nil, Bool.or_false, Bool.or_eq_false_iff,
    Bool.and_eq_false_iff, decide_eq_false_iff_not]
  omega

theorem mem_of_mem_trim {c : Char} (h : c ∈ trim cs) : c ∈ cs := by
  have htrim : trim cs = (cs.dropWhile isBlank).rdropWhile isBlank := rfl
  rw [htrim] at h
  have hfront := (List.rdropWhile_prefix isBlank (l := cs.dropWhile isBlank)).subset h
  exact (List.dropWhile_suffix isBlank).subset hfront

theorem trim_eq_self (h : IsTrimmed cs) : trim cs = cs := by
  have hfront : cs.dropWhile isBlank = cs := by
    rw [List.dropWhile_eq_self_iff]
    intro hl
    have hhead := h.head cs[0] (by rw [List.head?_eq_getElem?]; simp [hl])
    simp [hhead]
  have hback : cs.rdropWhile isBlank = cs := by
    rw [List.rdropWhile_eq_self_iff]
    intro hl
    have hlast := h.last (cs.getLast hl) (List.getLast_mem_getLast? hl)
    simp [hlast]
  rw [trim, trimBy, hfront]
  exact hback

theorem isTrimmed_trim (cs : List Char) : IsTrimmed (trim cs) := by
  have htrim : trim cs = (cs.dropWhile isBlank).rdropWhile isBlank := rfl
  refine ⟨fun c hc => ?_, fun c hc => ?_⟩
  · -- what is dropped at the end leaves the first character
    obtain ⟨tail, hfront⟩ := List.rdropWhile_prefix isBlank (l := cs.dropWhile isBlank)
    rw [htrim] at hc
    have hhead : (cs.dropWhile isBlank).head? = some c := by
      rw [← hfront, List.head?_append, hc]
      rfl
    have hnot := List.head?_dropWhile_not isBlank cs
    rw [hhead] at hnot
    exact hnot
  · rw [htrim] at hc
    obtain ⟨hne, rfl⟩ := List.mem_getLast?_eq_getLast hc
    simpa using List.rdropWhile_last_not isBlank (cs.dropWhile isBlank) hne

end Blank

/-! ## Several parts -/

section
variable {α β : Type} {f : α → Option β}

theorem mem_of_mapM_eq_some {items : List α} {results : List β} {b : β}
    (h : items.mapM f = some results) (hb : b ∈ results) : ∃ a ∈ items, f a = some b := by
  induction items generalizing results with
  | nil =>
    obtain rfl : [] = results := by simpa using h
    exact absurd hb List.not_mem_nil
  | cons item items ih =>
    rw [List.mapM_cons] at h
    obtain ⟨first, hfirst, h⟩ := Option.bind_eq_some_iff.1 h
    obtain ⟨rest, hrest, h⟩ := Option.bind_eq_some_iff.1 h
    obtain rfl : first :: rest = results := Option.some.inj h
    rcases List.mem_cons.1 hb with rfl | hb
    · exact ⟨item, List.mem_cons_self, hfirst⟩
    · obtain ⟨a, ha, hf⟩ := ih hrest hb
      exact ⟨a, List.mem_cons_of_mem item ha, hf⟩

theorem mapM_eq_some_self {g : β → α} {results : List β}
    (h : ∀ b ∈ results, f (g b) = some b) : (results.map g).mapM f = some results := by
  induction results with
  | nil => rfl
  | cons first rest ih =>
    obtain ⟨hfirst, hrest⟩ := List.forall_mem_cons.1 h
    rw [List.map_cons, List.mapM_cons, hfirst, ih hrest]
    rfl

end

/-! ## Digits -/

namespace Numeral

theorem decimal?_eq_some {c : Char} (h : c.isDigit = true) :
    decimal? c = some (c.toNat - '0'.toNat) := by
  have hrange : '0' ≤ c ∧ c ≤ '9' := by
    simpa [Char.isDigit, Char.le_def] using h
  rw [decimal?, if_pos hrange]

theorem lt_of_decimal? {c : Char} {n : Nat} (h : decimal? c = some n) : n < 10 := by
  rw [decimal?] at h
  split at h
  · next hrange =>
    obtain rfl : c.toNat - '0'.toNat = n := Option.some.inj h
    have hle : c.toNat ≤ '9'.toNat := hrange.2
    have hnine : '9'.toNat = '0'.toNat + 9 := by decide
    omega
  · cases h

/-- The value of a run of digits behind digits of value `front`. -/
theorem foldlM_digits {digits : List Char} (h : ∀ c ∈ digits, c.isDigit = true) (front : Nat) :
    digits.foldlM (fun n c => (decimal? c).map (n * 10 + ·)) front =
      some (Nat.ofDigitChars 10 digits front) := by
  induction digits generalizing front with
  | nil => rfl
  | cons c digits ih =>
    obtain ⟨hc, hdigits⟩ := List.forall_mem_cons.1 h
    rw [List.foldlM_cons, decimal?_eq_some hc, Option.map_some]
    show digits.foldlM _ (front * 10 + (c.toNat - '0'.toNat)) = _
    rw [ih hdigits, Nat.ofDigitChars_cons, Nat.mul_comm]

theorem lt_of_nat? {bound n : Nat} {cs : List Char} (h : nat? bound cs = some n) : n < bound := by
  unfold nat? unsigned? at h
  dsimp only at h
  split at h
  · cases h
  · obtain ⟨-, hlt⟩ := Option.filter_eq_some_iff.1 h
    simpa using hlt

/-- A number is read from its digits. -/
theorem nat?_toDigits {bound n : Nat} (h : n < bound) :
    nat? bound (Nat.toDigits 10 n) = some n := by
  have hdigit : ∀ c ∈ Nat.toDigits 10 n, c.isDigit = true := fun c hc =>
    Nat.isDigit_of_mem_toDigits (by decide) (by decide) hc
  have hplus : ∀ rest, Nat.toDigits 10 n ≠ '+' :: rest := by
    intro rest hcons
    have hc := hdigit '+' (by rw [hcons]; exact List.mem_cons_self)
    simp [Char.isDigit] at hc
  have hvalue : value? decimal? 10 (Nat.toDigits 10 n) = some n := by
    rw [value?, foldlM_digits hdigit, Nat.ofDigitChars_ten_toDigits]
  rw [nat?, unsigned?, hvalue]
  · simp [h]
  · exact hplus
  · exact Nat.toDigits_ne_nil

end Numeral

end ApiCensus
