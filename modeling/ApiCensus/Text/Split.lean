/-
  Cutting text at a character.

  * `Split.atFirst?`, `Split.atLast?`: the two parts around one occurrence.
  * `Split.fields`: the parts between all occurrences.
-/

namespace ApiCensus.Split

/-- The parts before and behind the first occurrence of a character. -/
def atFirst? (mark : Char) : List Char → Option (List Char × List Char)
  | [] => none
  | c :: rest =>
    if c = mark then some ([], rest)
    else (atFirst? mark rest).map fun (before, behind) => (c :: before, behind)

/-- The parts before and behind the last occurrence of a character. -/
def atLast? (mark : Char) (cs : List Char) : Option (List Char × List Char) :=
  (atFirst? mark cs.reverse).map fun (before, behind) => (behind.reverse, before.reverse)

/-- The parts between the occurrences of a character, one more than there are occurrences. -/
def fields (mark : Char) : List Char → List (List Char)
  | [] => [[]]
  | c :: rest =>
    if c = mark then [] :: fields mark rest
    else
      match fields mark rest with
      | [] => [[c]]
      | first :: others => (c :: first) :: others

/-- The parts around the first occurrence, joined again, are the text. -/
theorem eq_of_atFirst? {mark : Char} {cs : List Char} {parts : List Char × List Char}
    (h : atFirst? mark cs = some parts) : cs = parts.1 ++ mark :: parts.2 := by
  induction cs generalizing parts with
  | nil => cases h
  | cons c rest ih =>
    unfold atFirst? at h
    split at h
    · next hc => cases h; simp [hc]
    · obtain ⟨found, hf, rfl⟩ := Option.map_eq_some_iff.1 h
      simpa using ih hf

end ApiCensus.Split
