/-
  The short form names a framework again.

  * `FrameworkVersion.versionOf?_written`: a version is read from its numbers in the short form.
  * `TargetFramework.ShortNamed`: the short form has a name for a framework. So it is with those
    that are read from it: `shortNamed_of_familyOf?`.
  * `TargetFramework.readsShort_shortName`: the short name of such a framework, taken apart.
  * `TargetFramework.parse?_shortName`: a framework that was read is read again from its short
    name just if the short form has a name for it. This is about frameworks with a name of their
    own (`Regular`): digits that run together and capital letters lead elsewhere.
-/
import ApiCensus.Proofs.Framework.LetterCase

namespace ApiCensus

/-! ## Characters of a short name -/

theorem toLower_of_isLower {c : Char} (h : c.isLower = true) : c.toLower = c :=
  Char.toLower_eq_of_not_isUpper (Char.not_isUpper_of_isLower h)

theorem isAlpha_of_isLower {c : Char} (h : c.isLower = true) : c.isAlpha = true := by
  rw [Char.isAlpha, h, Bool.or_true]

theorem isLower_of_isAlpha {c : Char} (h : c.isAlpha = true) (hlower : c.toLower = c) :
    c.isLower = true := by
  rw [← hlower, Char.isLower_toLower_eq_isAlpha, h]

/-! ## Versions -/

namespace FrameworkVersion

variable {version : FrameworkVersion}

theorem toLower_of_mem_written {compact : Bool} {c : Char} (h : c ∈ version.written compact) :
    c.toLower = c := by
  rcases isDigit_or_point h with hdigit | rfl
  · rcases toLower_eq_self_or c with hsame | ⟨halpha, -⟩
    · exact hsame
    · rw [not_isDigit_of_isAlpha halpha] at hdigit
      cases hdigit
  · rfl

theorem decimal?_digitChar {n : Nat} (h : n < 10) : Numeral.decimal? n.digitChar = some n := by
  have hall : ∀ n < 10, Numeral.decimal? (Nat.digitChar n) = some n := by decide
  exact hall n h

/-- Numbers of one digit are read without points between them. -/
theorem parseCompact?_flatten (h : version.OneDigit) :
    parseCompact? version.digits.flatten = some version := by
  have hnumbers : (version.significant.map Nat.digitChar).mapM Numeral.decimal? =
      some version.significant :=
    mapM_eq_some_self fun n hn => decimal?_digitChar (h.significant n hn)
  rw [parseCompact?, flatten_digits h, hnumbers]
  exact version.ofComponents?_significant

theorem parseDotted?_written (h : version.Bounded) :
    parseDotted? (version.written false) = some version := by
  obtain ⟨d, rest, hwritten, hdigit⟩ := version.written_eq_cons false
  have hlower : d ≠ 'v' := by
    rintro rfl
    cases hdigit
  have hupper : d ≠ 'V' := by
    rintro rfl
    cases hdigit
  rw [hwritten, parseDotted?_cons hlower hupper, ← hwritten]
  exact numbers_written h

/-- A version is read from its numbers in the short form, with points between them or without. -/
theorem versionOf?_written {compact : Bool} (hbounded : version.Bounded)
    (hdigits : compact = true → version.OneDigit) :
    TargetFramework.versionOf? (version.written compact) = some version := by
  rw [TargetFramework.versionOf?]
  cases compact with
  | true =>
    have hpoint : '.' ∉ version.written true := by simp [mem_point_written]
    rw [if_neg (by simpa using hpoint)]
    exact parseCompact?_flatten (hdigits rfl)
  | false =>
    have hpoint : '.' ∈ version.written false := mem_point_written.2 rfl
    rw [if_pos (by simpa using hpoint)]
    exact parseDotted?_written hbounded

end FrameworkVersion

namespace TargetFramework

open FrameworkFamily

variable {f : TargetFramework}

/-! ## Families -/

/-- The short form has a name for the framework: the older line ends before version 5, and a
    family without a place of its own is named by letters and has a version. -/
def ShortNamed (f : TargetFramework) : Prop :=
  match f.family with
  | .netFramework => f.version.major < 5
  | .other name => name.toList.all Char.isAlpha = true ∧ ∃ n ∈ f.version.components, n ≠ 0
  | _ => True

/-- The short name of the framework is that of no other one: its numbers can be told apart, and a
    family without a place of its own is in lower case and not named like one that has a place. -/
structure Regular (f : TargetFramework) : Prop where
  digits : f.family.isCompact = true → f.version.OneDigit
  lower : f.lower = f
  unlabelled : ∀ name, f.family = .other name → name ∉ labels

theorem shortNamed_of_familyOf? {name : String} (h : familyOf? name f.version = some f.family) :
    f.ShortNamed := by
  unfold familyOf? at h
  split at h
  · rw [ShortNamed]
    split at h <;> rw [← Option.some.inj h]
    · trivial
    · next hmajor => exact Nat.lt_of_not_le hmajor
  · rw [ShortNamed, ← Option.some.inj h]
    trivial
  · rw [ShortNamed, ← Option.some.inj h]
    trivial
  · rw [ShortNamed, ← Option.some.inj h]
    trivial
  · obtain ⟨hadmitted, h⟩ := Option.ite_none_right_eq_some.1 h
    rw [ShortNamed, ← Option.some.inj h]
    simpa using hadmitted

theorem familyOf?_of_not_mem_labels {name : String} {version : FrameworkVersion}
    (hlabels : name ∉ labels) (hletters : name.toList.all Char.isAlpha = true)
    (hversion : ∃ n ∈ version.components, n ≠ 0) :
    familyOf? name version = some (.other name) := by
  have hadmitted : (name.toList.all Char.isAlpha && version.components.any (· != 0)) = true := by
    simpa [hletters] using hversion
  unfold familyOf?
  split
  · exact absurd (by decide) hlabels
  · exact absurd (by decide) hlabels
  · exact absurd (by decide) hlabels
  · exact absurd (by decide) hlabels
  · rw [if_pos hadmitted]

/-- The label tells the family. -/
theorem familyOf?_label (hnamed : f.ShortNamed) (hregular : f.Regular) :
    familyOf? f.label f.version = some f.family := by
  have hunlabelled := hregular.unlabelled
  obtain ⟨family, version, platform⟩ := f
  cases family with
  | netFramework =>
    have hmajor : version.major < 5 := hnamed
    simp [label, familyOf?, hmajor]
  | netCoreApp =>
    by_cases hmajor : 5 ≤ version.major <;> simp [label, familyOf?, hmajor]
  | netStandard => rfl
  | netCore => rfl
  | other name => exact familyOf?_of_not_mem_labels (hunlabelled name rfl) hnamed.1 hnamed.2

theorem isLower_label (hnamed : f.ShortNamed) (hregular : f.Regular) :
    ∀ c ∈ f.label.toList, c.isLower = true := by
  obtain hknown | ⟨name, hname⟩ := f.family.mem_known_or_other
  · have hall : labels.all (fun name => name.toList.all Char.isLower) = true := by decide
    exact List.all_eq_true.1 (List.all_eq_true.1 hall _ (label_mem_labels hknown))
  · have hlabel : f.label = name := by rw [label, hname]
    have hletters : name.toList.all Char.isAlpha = true := by
      rw [ShortNamed, hname] at hnamed
      exact hnamed.1
    have hlower : f.family.lower = f.family := congrArg family hregular.lower
    rw [hname, lower_other_eq_iff] at hlower
    intro c hc
    rw [hlabel] at hc
    exact isLower_of_isAlpha (List.all_eq_true.1 hletters c hc) (hlower c hc)

theorem label_ne_empty (hfamily : f.family.Named) : f.label ≠ "" := by
  obtain hknown | ⟨name, hname⟩ := f.family.mem_known_or_other
  · have hall : "" ∉ labels := by decide
    exact ne_of_mem_of_not_mem (label_mem_labels hknown) hall
  · have hlabel : f.label = name := by rw [label, hname]
    have hne : name.toList ≠ [] := by
      have hpresent := hfamily.ne_nil
      rwa [hname] at hpresent
    rw [hlabel]
    simpa using hne

theorem comma_not_mem_label (hfamily : f.family.Named) : ',' ∉ f.label.toList := by
  obtain hknown | ⟨name, hname⟩ := f.family.mem_known_or_other
  · have hall : ∀ name ∈ labels, ',' ∉ name.toList := by decide
    exact hall _ (label_mem_labels hknown)
  · have hundivided := hfamily.undivided
    rw [hname] at hundivided
    rwa [label, hname]

/-! ## Platforms -/

/-- A platform can stand at the end of a short name. -/
structure EndsShortName (platform : String) : Prop where
  ne_empty : platform ≠ ""
  lower : ∀ c ∈ platform.toList, c.toLower = c
  single : '+' ∉ platform.toList
  undivided : ',' ∉ platform.toList
  last : ∀ c ∈ platform.toList.getLast?, Blank.isBlank c = false

/-- The platform of a framework that was read stands at the end of the short name it was read
    from. -/
theorem endsShortName_of_parse? {text : String} (h : parse? text = some f) {platform : String}
    (hplatform : f.platform = some platform) :
    EndsShortName platform ∧ admitsPlatform f.family f.version = true := by
  by_cases hshort : IsFolderName text
  · rw [parse?_of_isFolderName hshort, parseShortName?_eq_some_iff] at h
    obtain ⟨label, numbers, hread⟩ := h
    have hparts := hread.parts
    rw [hplatform] at hparts
    have hend : ∀ c ∈ platform.toList, c ∈ (Blank.trim text.toList).map Char.toLower := by
      intro c hc
      rw [hparts]
      exact List.mem_append_right _ (List.mem_cons_of_mem _ hc)
    have hne : platform ≠ "" := fun hempty => hread.present (by rw [hplatform, hempty])
    refine ⟨⟨hne, fun c hc => toLower_of_mem_map (hend c hc), fun hc => hread.single (hend _ hc),
      fun hc => ?_, fun c hc => ?_⟩, hread.admitted (by rw [hplatform]; rfl)⟩
    · obtain ⟨d, hd, hlower⟩ := List.mem_map.1 (hend ',' hc)
      exact hshort.2 ((toLower_eq_iff rfl d).1 hlower ▸ hd)
    · have htrimmed := Blank.isTrimmed_trim (text.map Char.toLower).toList
      rw [trim_toList_toLower, hparts] at htrimmed
      have hcons : platform.toList ≠ [] := by simpa using hne
      refine htrimmed.last c ?_
      rw [platformPart, Option.elim_some, List.getLast?_append_of_ne_nil _ (List.cons_ne_nil _ _),
        List.getLast?_cons_of_ne_nil hcons]
      exact hc
  · rw [parse?_of_not_isFolderName hshort] at h
    obtain ⟨-, -, hnone⟩ := parseFullName?_eq_some h
    rw [hnone] at hplatform
    cases hplatform

theorem mem_platformPart {platform : Option String} {c : Char} (h : c ∈ platformPart platform) :
    c = '-' ∨ ∃ text, platform = some text ∧ c ∈ text.toList := by
  cases platform with
  | none => simp [platformPart] at h
  | some text => simpa [platformPart] using h

/-! ## Short names -/

theorem toList_shortName_eq (f : TargetFramework) :
    f.shortName.toList =
      (f.label.toList ++ f.version.written f.family.isCompact) ++ platformPart f.platform := by
  rw [toList_shortName, behindLabel, List.append_assoc]
  rfl

/-- No comma is in a short name. -/
theorem comma_not_mem_shortName {text : String} (h : parse? text = some f) :
    ',' ∉ f.shortName.toList := by
  rw [toList_shortName_eq, List.mem_append, List.mem_append]
  rintro ((hc | hc) | hc)
  · exact comma_not_mem_label (parse?_eq_some h).1 hc
  · exact FrameworkVersion.not_mem_written rfl (by decide) hc
  · obtain hc | ⟨platform, hplatform, hc⟩ := mem_platformPart hc
    · exact absurd hc (by decide)
    · exact (endsShortName_of_parse? h hplatform).1.undivided hc

/-- Without a comma there is no version in the long form. -/
theorem parseFullName?_of_not_mem {text : List Char} (h : ',' ∉ text) :
    parseFullName? text = none := by
  rw [parseFullName?, Split.fields_of_not_mem h]
  by_cases hempty : (Blank.trim text).isEmpty = true
  · simp [hempty]
  · simp [hempty, versionAmong?]

theorem shortNamed_of_parseShortName? {text : List Char} (h : parseShortName? text = some f) :
    f.ShortNamed := by
  obtain ⟨label, numbers, hread⟩ := parseShortName?_eq_some_iff.1 h
  exact shortNamed_of_familyOf? hread.family

theorem shortNamed_of_parse? {text : String} (hcomma : ',' ∉ text.toList)
    (h : parse? text = some f) : f.ShortNamed := by
  by_cases hshort : IsFolderName text
  · rw [parse?_of_isFolderName hshort] at h
    exact shortNamed_of_parseShortName? h
  · rw [parse?_of_not_isFolderName hshort,
      parseFullName?_of_not_mem fun hc => hcomma (Blank.mem_of_mem_trim hc)] at h
    cases h

section
variable {text : String}

/-- The parts of a short name. -/
theorem readsShort_shortName (h : parse? text = some f) (hregular : f.Regular)
    (hnamed : f.ShortNamed) :
    ReadsShort f.shortName.toList f.label.toList (f.version.written f.family.isCompact) f := by
  obtain ⟨hfamily, hbounded⟩ := parse?_eq_some h
  have hletter := isLower_label hnamed hregular
  obtain ⟨d, rest, hwritten, hdigit⟩ := f.version.written_eq_cons f.family.isCompact
  have hwhole : '-' ∉ f.label.toList ++ f.version.written f.family.isCompact := by
    rw [List.mem_append, not_or]
    exact ⟨fun hc => absurd (hletter '-' hc) (by decide),
      FrameworkVersion.not_mem_written rfl (by decide)⟩
  constructor
  case parts => exact f.toList_shortName_eq
  case single =>
    rw [toList_shortName_eq, List.mem_append, List.mem_append]
    rintro ((hc | hc) | hc)
    · exact absurd (hletter '+' hc) (by decide)
    · exact FrameworkVersion.not_mem_written rfl (by decide) hc
    · obtain hc | ⟨platform, hplatform, hc⟩ := mem_platformPart hc
      · exact absurd hc (by decide)
      · exact (endsShortName_of_parse? h hplatform).1.single hc
  case undivided => exact hwhole
  case present =>
    intro hempty
    exact (endsShortName_of_parse? h hempty).1.ne_empty rfl
  case labelled => simpa using label_ne_empty hfamily
  case unnumbered => exact fun c hc => not_isDigit_of_isAlpha (isAlpha_of_isLower (hletter c hc))
  case numbered =>
    intro c hc
    rw [hwritten] at hc
    obtain rfl := Option.some.inj hc
    exact hdigit
  case version => exact FrameworkVersion.versionOf?_written hbounded hregular.digits
  case family =>
    rw [String.ofList_toList]
    exact familyOf?_label hnamed hregular
  case admitted =>
    intro hsome
    obtain ⟨platform, hplatform⟩ := Option.isSome_iff_exists.1 hsome
    exact (endsShortName_of_parse? h hplatform).2

theorem map_toLower_shortName (h : parse? text = some f) (hregular : f.Regular)
    (hnamed : f.ShortNamed) : f.shortName.toList.map Char.toLower = f.shortName.toList := by
  rw [map_toLower_eq_self_iff, toList_shortName_eq]
  intro c hc
  rw [List.mem_append, List.mem_append] at hc
  rcases hc with (hc | hc) | hc
  · exact toLower_of_isLower (isLower_label hnamed hregular c hc)
  · exact FrameworkVersion.toLower_of_mem_written hc
  · obtain rfl | ⟨platform, hplatform, hc⟩ := mem_platformPart hc
    · rfl
    · exact (endsShortName_of_parse? h hplatform).1.lower c hc

theorem isBlank_of_isLower {c : Char} (h : c.isLower = true) : Blank.isBlank c = false :=
  Blank.isBlank_of_isAlpha (isAlpha_of_isLower h)

theorem isBlank_of_mem_written {compact : Bool} {c : Char} {version : FrameworkVersion}
    (h : c ∈ version.written compact) : Blank.isBlank c = false := by
  rcases FrameworkVersion.isDigit_or_point h with hdigit | rfl
  · exact Blank.isBlank_of_isDigit hdigit
  · decide

theorem isTrimmed_shortName (h : parse? text = some f) (hregular : f.Regular)
    (hnamed : f.ShortNamed) : Blank.IsTrimmed f.shortName.toList := by
  have hletter := isLower_label hnamed hregular
  have hlabel : f.label.toList ≠ [] := by simpa using label_ne_empty (parse?_eq_some h).1
  obtain ⟨d, rest, hwritten, -⟩ := f.version.written_eq_cons f.family.isCompact
  rw [toList_shortName_eq]
  refine ⟨fun c hc => ?_, fun c hc => ?_⟩
  · rw [List.append_assoc, List.head?_append_of_ne_nil _ hlabel] at hc
    exact isBlank_of_isLower (hletter c (List.mem_of_mem_head? hc))
  · cases hplatform : f.platform with
    | none =>
      rw [hplatform, platformPart, Option.elim_none, List.append_nil,
        List.getLast?_append_of_ne_nil _ (by simp [hwritten])] at hc
      exact isBlank_of_mem_written (List.mem_of_mem_getLast? hc)
    | some platform =>
      have hends := (endsShortName_of_parse? h hplatform).1
      have hcons : platform.toList ≠ [] := by simpa using hends.ne_empty
      rw [hplatform, platformPart, Option.elim_some,
        List.getLast?_append_of_ne_nil _ (List.cons_ne_nil _ _),
        List.getLast?_cons_of_ne_nil hcons] at hc
      exact hends.last c hc

/-- A short name is read in the short form. -/
theorem isFolderName_shortName (h : parse? text = some f) (hregular : f.Regular)
    (hnamed : f.ShortNamed) : IsFolderName f.shortName := by
  have hlabel : f.label.toList ≠ [] := by simpa using label_ne_empty (parse?_eq_some h).1
  rw [IsFolderName, Blank.trim_eq_self (isTrimmed_shortName h hregular hnamed)]
  refine ⟨?_, comma_not_mem_shortName h⟩
  rw [toList_shortName_eq, List.append_assoc, List.head?_append_of_ne_nil _ hlabel]
  intro hpoint
  have hletter := isLower_label hnamed hregular '.' (List.mem_of_mem_head? hpoint)
  exact absurd hletter (by decide)

theorem parse?_shortName_of_named (h : parse? text = some f) (hregular : f.Regular)
    (hnamed : f.ShortNamed) : parse? f.shortName = some f := by
  rw [parse?_of_isFolderName (isFolderName_shortName h hregular hnamed),
    Blank.trim_eq_self (isTrimmed_shortName h hregular hnamed), parseShortName?_eq_some_iff,
    map_toLower_shortName h hregular hnamed]
  exact ⟨_, _, readsShort_shortName h hregular hnamed⟩

/-- **A framework that was read, with a short name of its own, is read again from it just if the
    short form has a name for it, as it has for every framework that is read from it.** -/
theorem parse?_shortName (h : parse? text = some f) (hregular : f.Regular) :
    (parse? f.shortName = some f ↔ f.ShortNamed) ∧ (IsFolderName text → f.ShortNamed) := by
  refine ⟨⟨fun hagain => ?_, parse?_shortName_of_named h hregular⟩, fun hshort => ?_⟩
  · exact shortNamed_of_parse? (comma_not_mem_shortName h) hagain
  · rw [parse?_of_isFolderName hshort] at h
    exact shortNamed_of_parseShortName? h

end

/-- A framework of the newer line with a platform. -/
def windows : TargetFramework where
  family := .netCoreApp
  version := { major := 5, build := 2 }
  platform := some "windows10.0"

theorem parse?_shortName_windows :
    parse? " NetCoreApp5.0.2-Windows10.0 " = some windows ∧ windows.Regular ∧
      IsFolderName " NetCoreApp5.0.2-Windows10.0 " ∧ parse? windows.shortName = some windows := by
  have hread : parse? " NetCoreApp5.0.2-Windows10.0 " = some windows := by decide
  have hregular : windows.Regular := ⟨by rintro ⟨⟩, rfl, by rintro name ⟨⟩⟩
  have hshort : IsFolderName " NetCoreApp5.0.2-Windows10.0 " := by
    constructor <;> decide
  obtain ⟨hagain, hnamed⟩ := parse?_shortName hread hregular
  exact ⟨hread, hregular, hshort, hagain.2 (hnamed hshort)⟩

/-- A version that the older line does not have. -/
def olderLine : TargetFramework where
  family := .netFramework
  version := { major := 5 }

/-- The short form has the name for the newer line. -/
theorem parse?_shortName_olderLine :
    parse? ".NETFramework,Version=v5.0" = some olderLine ∧
      parse? olderLine.shortName = some { olderLine with family := .netCoreApp } ∧
      parse? olderLine.shortName ≠ some olderLine := by
  decide

end TargetFramework

end ApiCensus
