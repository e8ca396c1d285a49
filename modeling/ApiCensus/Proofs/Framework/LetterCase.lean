/-
  Frameworks in letters of either case.

  * `FrameworkFamily.lower`: the families that names in lower case are read as.
  * `FrameworkVersion.parseDotted?_toLower`: versions have no case.
  * `TargetFramework.parseShortName?_lower`: what is read from the short form is in lower case.
  * `TargetFramework.parse?_toLower`: reading a text in lower case gives the same framework with
    its family in lower case. That is another framework just if the text is in the long form and
    names a family without a place of its own in capital letters.
-/
import ApiCensus.Proofs.Framework.FullName

namespace ApiCensus

/-! ## Versions -/

namespace FrameworkVersion

theorem mapM_nat?_toLower (parts : List (List Char)) :
    (parts.map (List.map Char.toLower)).mapM (Numeral.nat? componentBound) =
      parts.mapM (Numeral.nat? componentBound) := by
  rw [List.mapM_map]
  exact congrArg (parts.mapM ·) (funext (Numeral.nat?_toLower componentBound))

/-- A letter in front that is no `v` stays where it is. -/
theorem parseDotted?_cons {c : Char} (hlower : c ≠ 'v') (hupper : c ≠ 'V') (rest : List Char) :
    parseDotted? (c :: rest) =
      (Split.fields '.' (c :: rest)).mapM (Numeral.nat? componentBound) >>= ofComponents? := by
  unfold parseDotted?
  split
  · next heq => exact absurd (List.cons.inj heq).1 hlower
  · next heq => exact absurd (List.cons.inj heq).1 hupper
  · rfl

theorem parseDotted?_toLower (text : List Char) :
    parseDotted? (text.map Char.toLower) = parseDotted? text := by
  have hnumbers : ∀ text : List Char,
      (Split.fields '.' (text.map Char.toLower)).mapM (Numeral.nat? componentBound) =
        (Split.fields '.' text).mapM (Numeral.nat? componentBound) := by
    intro text
    rw [Split.fields_toLower rfl, mapM_nat?_toLower]
  cases text with
  | nil => rfl
  | cons c rest =>
    by_cases hv : c = 'v' ∨ c = 'V'
    · have hprefix : ∀ d, d = 'v' ∨ d = 'V' → ∀ rest : List Char, parseDotted? (d :: rest) =
          (Split.fields '.' rest).mapM (Numeral.nat? componentBound) >>= ofComponents? := by
        rintro d (rfl | rfl) rest <;> rfl
      have hlower : c.toLower = 'v' ∨ c.toLower = 'V' := by
        rcases hv with rfl | rfl <;> exact Or.inl rfl
      rw [List.map_cons, hprefix c.toLower hlower, hprefix c hv, hnumbers]
    · obtain ⟨hlower, hupper⟩ := not_or.1 hv
      have hlower' : c.toLower ≠ 'v' := fun h => hv (eq_or_eq_toUpper_of_toLower h)
      have hupper' : c.toLower ≠ 'V' := fun h => by
        have hcase := Char.isUpper_toLower_eq_false c
        rw [h] at hcase
        cases hcase
      rw [List.map_cons, parseDotted?_cons hlower' hupper', parseDotted?_cons hlower hupper,
        ← List.map_cons, hnumbers]

end FrameworkVersion

/-! ## Families -/

namespace FrameworkFamily

/-- The family with its name in lower case; a family with a place of its own stays as it is. -/
def lower : FrameworkFamily → FrameworkFamily
  | .other name => .other (name.map Char.toLower)
  | family => family

theorem lower_of_known {family : FrameworkFamily} (h : family ∈ known) : family.lower = family := by
  cases family with
  | other name => simp [known] at h
  | _ => rfl

theorem lower_other_eq_iff {name : String} :
    (other name).lower = other name ↔ ∀ c ∈ name.toList, c.toLower = c := by
  rw [lower, other.injEq, ← String.toList_inj, String.toList_map, map_toLower_eq_self_iff]

theorem ofFullName_toLower (name : List Char) :
    ofFullName (name.map Char.toLower) = (ofFullName name).lower := by
  simp only [ofFullName, map_toLower_toLower]
  cases hfind : known.find? (fun family =>
      family.fullName.toList.map Char.toLower == name.map Char.toLower) with
  | some family => exact (lower_of_known (List.mem_of_find?_eq_some hfind)).symm
  | none => simp [lower, ← String.toList_inj]

end FrameworkFamily

/-! ## Frameworks -/

namespace TargetFramework

/-- The framework with its family in lower case. -/
def lower (f : TargetFramework) : TargetFramework :=
  { f with family := f.family.lower }

theorem isVersionKey_toLower (key : List Char) :
    isVersionKey (key.map Char.toLower) = isVersionKey key := by
  rw [isVersionKey, map_toLower_toLower, isVersionKey]

theorem versionAmong?_toLower (parts : List (List Char)) :
    versionAmong? (parts.map (List.map Char.toLower)) = versionAmong? parts := by
  have hpart : ∀ part : List Char,
      ((Split.atFirst? '=' (part.map Char.toLower)).filter fun found =>
          isVersionKey (Blank.trim found.1)) =
        ((Split.atFirst? '=' part).filter fun found => isVersionKey (Blank.trim found.1)).map
          fun found => (found.1.map Char.toLower, found.2.map Char.toLower) := by
    intro part
    rw [Split.atFirst?_toLower rfl]
    cases Split.atFirst? '=' part with
    | none => rfl
    | some found => simp [Option.filter, Blank.trim_toLower, isVersionKey_toLower]
  have hvalue : ∀ value : List Char,
      FrameworkVersion.parseDotted? (Blank.trim (value.map Char.toLower)) =
        FrameworkVersion.parseDotted? (Blank.trim value) := by
    intro value
    rw [Blank.trim_toLower, FrameworkVersion.parseDotted?_toLower]
  simp only [versionAmong?, List.filterMap_map, Function.comp_def, hpart, ← List.map_filterMap,
    List.mapM_map, hvalue]

theorem parseFullName?_toLower (text : List Char) :
    parseFullName? (text.map Char.toLower) = (parseFullName? text).map lower := by
  have hparts : (Split.fields ',' (text.map Char.toLower)).map Blank.trim =
      ((Split.fields ',' text).map Blank.trim).map (List.map Char.toLower) := by
    rw [Split.fields_toLower rfl, List.map_map, List.map_map]
    exact List.map_congr_left fun part _ => Blank.trim_toLower part
  rw [parseFullName?, parseFullName?, hparts]
  cases (Split.fields ',' text).map Blank.trim with
  | nil => rfl
  | cons family parts =>
    simp only [List.map_cons, List.isEmpty_map, versionAmong?_toLower,
      FrameworkFamily.ofFullName_toLower]
    cases family.isEmpty
    · cases versionAmong? parts <;> rfl
    · rfl

theorem parseShortName?_toLower (text : List Char) :
    parseShortName? (text.map Char.toLower) = parseShortName? text := by
  simp only [parseShortName?, map_toLower_toLower]

/-- What is read in the short form is in lower case. -/
theorem lower_of_parseShortName? {f : TargetFramework} {text : List Char}
    (h : parseShortName? text = some f) : f.lower = f := by
  obtain ⟨label, numbers, hread⟩ := parseShortName?_eq_some_iff.1 h
  have hfamily : f.family.lower = f.family := by
    rcases familyOf?_eq_some hread.family with hknown | ⟨hother, -, -⟩
    · exact FrameworkFamily.lower_of_known hknown
    · rw [hother, FrameworkFamily.lower_other_eq_iff, String.toList_ofList]
      intro c hc
      refine @toLower_of_mem_map c text ?_
      rw [hread.parts]
      exact List.mem_append_left _ (List.mem_append_left _ hc)
  rw [lower, hfamily]

/-! ## Either form -/

/-- The text is read in the short form: it neither starts with a point nor has a comma. -/
def IsFolderName (text : String) : Prop :=
  (Blank.trim text.toList).head? ≠ some '.' ∧ ',' ∉ Blank.trim text.toList

theorem parse?_of_isFolderName {text : String} (h : IsFolderName text) :
    parse? text = parseShortName? (Blank.trim text.toList) := by
  obtain ⟨hpoint, hcomma⟩ := h
  rw [parse?, if_neg (by simp [hpoint, hcomma])]

theorem parse?_of_not_isFolderName {text : String} (h : ¬ IsFolderName text) :
    parse? text = parseFullName? (Blank.trim text.toList) := by
  rw [IsFolderName, not_and_or, not_not, not_not] at h
  rw [parse?, if_pos (by simpa using h)]

theorem trim_toList_toLower (text : String) :
    Blank.trim (text.map Char.toLower).toList = (Blank.trim text.toList).map Char.toLower := by
  rw [String.toList_map, Blank.trim_toLower]

theorem isFolderName_toLower (text : String) :
    IsFolderName (text.map Char.toLower) ↔ IsFolderName text := by
  have hcomma := @toLower_eq_iff ',' rfl
  have hpoint := @toLower_eq_iff '.' rfl
  rw [IsFolderName, trim_toList_toLower, IsFolderName]
  simp [hcomma, hpoint]

theorem parse?_map_toLower (text : String) :
    parse? (text.map Char.toLower) = (parse? text).map lower := by
  by_cases hshort : IsFolderName text
  · rw [parse?_of_isFolderName ((isFolderName_toLower text).2 hshort), trim_toList_toLower,
      parseShortName?_toLower, parse?_of_isFolderName hshort]
    cases hread : parseShortName? (Blank.trim text.toList) with
    | none => rfl
    | some f => rw [Option.map_some, lower_of_parseShortName? hread]
  · rw [parse?_of_not_isFolderName ((isFolderName_toLower text).not.2 hshort),
      trim_toList_toLower, parseFullName?_toLower, parse?_of_not_isFolderName hshort]

/-- **Reading a text in lower case gives its framework with the family in lower case, which is the
    framework itself just if its family is in lower case, as with every text in the short
    form.** -/
theorem parse?_toLower (text : String) :
    parse? (text.map Char.toLower) = (parse? text).map lower ∧
      (parse? (text.map Char.toLower) = parse? text ↔ ∀ f, parse? text = some f → f.lower = f) ∧
      (IsFolderName text → ∀ f, parse? text = some f → f.lower = f) := by
  refine ⟨parse?_map_toLower text, ?_, fun hshort f h => ?_⟩
  · rw [parse?_map_toLower]
    cases parse? text <;> simp
  · rw [parse?_of_isFolderName hshort] at h
    exact lower_of_parseShortName? h

/-- The framework of a family that is named in the long form only. -/
def silverlight : TargetFramework where
  family := .other "Silverlight"
  version := { major := 5 }

/-- The long form keeps the capital letters of a family. -/
theorem parse?_toLower_silverlight :
    parse? "Silverlight,Version=v5.0" = some silverlight ∧
      parse? ("Silverlight,Version=v5.0".map Char.toLower) = some silverlight.lower ∧
      silverlight.lower ≠ silverlight := by
  have htext : "Silverlight,Version=v5.0".map Char.toLower = "silverlight,version=v5.0" := by
    rw [← String.toList_inj, String.toList_map]
    decide
  have hlower : silverlight.lower = { silverlight with family := .other "silverlight" } := by
    have hname : "Silverlight".map Char.toLower = "silverlight" := by
      rw [← String.toList_inj, String.toList_map]
      decide
    rw [lower, silverlight, FrameworkFamily.lower, hname]
  rw [htext, hlower]
  decide

end TargetFramework

end ApiCensus
