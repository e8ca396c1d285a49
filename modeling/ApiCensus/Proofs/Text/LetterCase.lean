/-
  What reading a text finds in it in lower case.

  * `toLower_eq_iff`: the case of a letter matters to no mark that is not a letter.
  * `Split.fields_toLower`, `Split.atFirst?_toLower`, `Blank.trim_toLower`: a text in lower case is
    cut where the text is cut.
  * `Numeral.nat?_toLower`: numerals have no case.
-/
import ApiCensus.Proofs.Text.Fields
import Mathlib

namespace ApiCensus

variable {mark : Char}

/-! ## Characters -/

/-- A character stays as it is, or it is a letter and becomes one. -/
theorem toLower_eq_self_or (c : Char) :
    c.toLower = c ∨ c.isAlpha = true ∧ c.toLower.isAlpha = true := by
  by_cases hupper : c.isUpper = true
  · exact Or.inr (by simp [Char.isAlpha, hupper])
  · exact Or.inl (Char.toLower_eq_of_not_isUpper hupper)

/-- The case of a letter does not matter to a test that no letter passes. -/
theorem apply_toLower {α : Type} {f : Char → α} {a : α} (h : ∀ c, c.isAlpha = true → f c = a)
    (c : Char) : f c.toLower = f c := by
  rcases toLower_eq_self_or c with hsame | ⟨hc, hlower⟩
  · rw [hsame]
  · rw [h _ hlower, h c hc]

theorem toLower_eq_iff (hmark : mark.isAlpha = false) (c : Char) : c.toLower = mark ↔ c = mark := by
  have htest := apply_toLower (f := fun c => decide (c = mark)) (a := false) ?_ c
  · simpa using htest
  · rintro c hc
    simpa using ne_of_apply_ne Char.isAlpha (by rw [hc, hmark]; decide)

theorem eq_or_eq_toUpper_of_toLower {c d : Char} (h : c.toLower = d) : c = d ∨ c = d.toUpper := by
  by_cases hupper : c.isUpper = true
  · refine Or.inr ?_
    rw [← h, Char.toUpper_toLower_eq_toUpper,
      Char.toUpper_eq_of_not_isLower (Char.not_isLower_of_isUpper hupper)]
  · exact Or.inl ((Char.toLower_eq_of_not_isUpper hupper).symm.trans h)

theorem map_toLower_toLower (cs : List Char) :
    (cs.map Char.toLower).map Char.toLower = cs.map Char.toLower := by
  rw [List.map_map]
  exact List.map_congr_left fun c _ => Char.toLower_toLower_eq_toLower c

theorem toLower_of_mem_map {c : Char} {cs : List Char} (h : c ∈ cs.map Char.toLower) :
    c.toLower = c := by
  obtain ⟨d, -, rfl⟩ := List.mem_map.1 h
  exact Char.toLower_toLower_eq_toLower d

theorem map_toLower_eq_self_iff {cs : List Char} :
    cs.map Char.toLower = cs ↔ ∀ c ∈ cs, c.toLower = c := by
  constructor
  · intro h c hc
    rw [← h] at hc
    exact toLower_of_mem_map hc
  · intro h
    exact (List.map_congr_left h).trans (List.map_id cs)

/-! ## Parts of a text -/

namespace Split

variable {g : Char → Char}

theorem fields_map (hg : ∀ c, g c = mark ↔ c = mark) (cs : List Char) :
    fields mark (cs.map g) = (fields mark cs).map (List.map g) := by
  induction cs with
  | nil => rfl
  | cons c rest ih =>
    rw [List.map_cons, fields, fields, ih]
    by_cases hc : c = mark
    · rw [if_pos ((hg c).2 hc), if_pos hc]
      rfl
    · rw [if_neg ((hg c).not.2 hc), if_neg hc]
      cases fields mark rest with
      | nil => rfl
      | cons first others => rfl

theorem atFirst?_map (hg : ∀ c, g c = mark ↔ c = mark) (cs : List Char) :
    atFirst? mark (cs.map g) =
      (atFirst? mark cs).map fun parts => (parts.1.map g, parts.2.map g) := by
  induction cs with
  | nil => rfl
  | cons c rest ih =>
    rw [List.map_cons, atFirst?, atFirst?, ih]
    by_cases hc : c = mark
    · rw [if_pos ((hg c).2 hc), if_pos hc]
      rfl
    · rw [if_neg ((hg c).not.2 hc), if_neg hc]
      cases atFirst? mark rest <;> rfl

theorem fields_toLower (hmark : mark.isAlpha = false) (cs : List Char) :
    fields mark (cs.map Char.toLower) = (fields mark cs).map (List.map Char.toLower) :=
  fields_map (toLower_eq_iff hmark) cs

theorem atFirst?_toLower (hmark : mark.isAlpha = false) (cs : List Char) :
    atFirst? mark (cs.map Char.toLower) =
      (atFirst? mark cs).map fun parts =>
        (parts.1.map Char.toLower, parts.2.map Char.toLower) :=
  atFirst?_map (toLower_eq_iff hmark) cs

end Split

namespace Blank

theorem isBlank_toLower (c : Char) : isBlank c.toLower = isBlank c :=
  apply_toLower (fun _ => isBlank_of_isAlpha) c

theorem trim_toLower (cs : List Char) :
    trim (cs.map Char.toLower) = (trim cs).map Char.toLower := by
  have hblank : isBlank ∘ Char.toLower = isBlank := funext isBlank_toLower
  simp only [trim, trimBy, List.dropWhile_map, hblank, ← List.map_reverse]

end Blank

/-! ## Numerals -/

namespace Numeral

theorem decimal?_eq_none {c : Char} (h : c.isDigit = false) : decimal? c = none := by
  have hrange : ¬ ('0' ≤ c ∧ c ≤ '9') := by
    simpa [Char.isDigit, Char.le_def] using h
  rw [decimal?, if_neg hrange]

theorem decimal?_toLower (c : Char) : decimal? c.toLower = decimal? c :=
  apply_toLower (fun _ hc => decimal?_eq_none (not_isDigit_of_isAlpha hc)) c

theorem nat?_cons {bound : Nat} {c : Char} (hc : c ≠ '+') (rest : List Char) :
    nat? bound (c :: rest) = (value? decimal? 10 (c :: rest)).filter (· < bound) := by
  rw [nat?, unsigned?]
  · exact fun _ hcons => hc (List.cons.inj hcons).1
  · exact List.cons_ne_nil c rest

theorem value?_toLower (digits : List Char) :
    value? decimal? 10 (digits.map Char.toLower) = value? decimal? 10 digits := by
  simp only [value?, List.foldlM_map, decimal?_toLower]

theorem nat?_toLower (bound : Nat) (cs : List Char) :
    nat? bound (cs.map Char.toLower) = nat? bound cs := by
  cases cs with
  | nil => rfl
  | cons c rest =>
    by_cases hplus : c = '+'
    · subst hplus
      cases rest with
      | nil => rfl
      | cons d rest => exact congrArg (Option.filter _) (value?_toLower (d :: rest))
    · have hlower : c.toLower ≠ '+' := (toLower_eq_iff rfl c).not.2 hplus
      rw [List.map_cons, nat?_cons hlower, nat?_cons hplus, ← List.map_cons, value?_toLower]

end Numeral

end ApiCensus
