/-
  The long form names a framework again.

  * `FrameworkVersion.parseDotted?_dotted`: a version is read from its significant numbers, if
    all its numbers are below the bound, as those that are read are.
  * `FrameworkFamily.Named`: the name of a family in the long form tells the family. So it is
    with the families that are read: `named_ofFullName`, `named_of_familyOf?`.
  * `TargetFramework.parse?_fullName`: a framework that was read is read again from its long
    form, except for the platform.
-/
import ApiCensus.Proofs.Framework.ShortName
import ApiCensus.Proofs.Text.LetterCase

namespace ApiCensus

/-! ## Versions -/

namespace FrameworkVersion

variable {version : FrameworkVersion}

/-- All numbers are small enough to be read. -/
def Bounded (version : FrameworkVersion) : Prop :=
  ∀ n ∈ version.components, n < componentBound

theorem ofComponents?_significant (version : FrameworkVersion) :
    ofComponents? version.significant = some version := by
  obtain ⟨major, minor, build, revision⟩ := version
  by_cases hrevision : revision = 0
  · by_cases hbuild : build = 0
    · simp [significant, ofComponents?, hrevision, hbuild]
    · simp [significant, ofComponents?, hrevision, hbuild]
  · simp [significant, ofComponents?, hrevision]

/-- A version has no other numbers than those it was made of, and zeros. -/
theorem mem_of_ofComponents? {numbers : List Nat} (h : ofComponents? numbers = some version)
    {n : Nat} (hn : n ∈ version.components) : n ∈ numbers ∨ n = 0 := by
  unfold ofComponents? at h
  split at h
  all_goals cases h
  all_goals
    simp only [components, List.mem_cons, List.not_mem_nil, or_false] at hn ⊢
    omega

theorem bounded_of_ofComponents? {numbers : List Nat} (h : ofComponents? numbers = some version)
    (hnumbers : ∀ n ∈ numbers, n < componentBound) : version.Bounded := by
  intro n hn
  rcases mem_of_ofComponents? h hn with hn | rfl
  · exact hnumbers n hn
  · decide

theorem bounded_of_parseDotted? {text : List Char} (h : parseDotted? text = some version) :
    version.Bounded := by
  obtain ⟨numbers, hnumbers, h⟩ := Option.bind_eq_some_iff.1 h
  refine bounded_of_ofComponents? h fun n hn => ?_
  obtain ⟨part, -, hpart⟩ := mem_of_mapM_eq_some hnumbers hn
  exact Numeral.lt_of_nat? hpart

theorem bounded_of_parseCompact? {text : List Char} (h : parseCompact? text = some version) :
    version.Bounded := by
  obtain ⟨numbers, hnumbers, h⟩ := Option.bind_eq_some_iff.1 h
  refine bounded_of_ofComponents? h fun n hn => ?_
  obtain ⟨c, -, hc⟩ := mem_of_mapM_eq_some hnumbers hn
  have hdigit := Numeral.lt_of_decimal? hc
  have hbound : 10 < componentBound := by decide
  omega

/-- The numbers between the points are the significant numbers. -/
theorem numbers_written (h : version.Bounded) :
    (Split.fields '.' (version.written false)).mapM (Numeral.nat? componentBound) >>=
      ofComponents? = some version := by
  have hfields : Split.fields '.' (version.written false) = version.digits :=
    Split.fields_intercalate (fun _ => not_mem_digits rfl) digits_ne_nil
  have hnumbers : version.digits.mapM (Numeral.nat? componentBound) = some version.significant :=
    mapM_eq_some_self fun n hn => Numeral.nat?_toDigits (h n (mem_components hn))
  rw [hfields, hnumbers]
  exact version.ofComponents?_significant

/-- A version is read from its significant numbers. -/
theorem parseDotted?_dotted (h : version.Bounded) :
    parseDotted? ('v' :: version.dotted.toList) = some version := by
  rw [toList_dotted]
  exact numbers_written h

/-- What stands behind the family and the comma in the long form. -/
def part (version : FrameworkVersion) : List Char :=
  ("Version=v" ++ version.dotted).toList

/-- The key and the value of the part. -/
theorem part_eq (version : FrameworkVersion) :
    version.part = "Version".toList ++ '=' :: 'v' :: version.dotted.toList := by
  rw [part, String.toList_append]
  generalize version.dotted.toList = value
  simp

theorem part_ne_nil (version : FrameworkVersion) : version.part ≠ [] := by
  rw [part_eq]
  exact List.append_ne_nil_of_right_ne_nil _ (List.cons_ne_nil _ _)

theorem mem_part {c : Char} (h : c ∈ version.part) :
    c ∈ "Version=v".toList ∨ c.isDigit = true ∨ c = '.' := by
  rw [part, String.toList_append] at h
  rcases List.mem_append.1 h with h | h
  · exact .inl h
  · rw [toList_dotted] at h
    exact .inr (@isDigit_or_point version false c h)

theorem isBlank_part {c : Char} (h : c ∈ version.part) : Blank.isBlank c = false := by
  have hkey : "Version=v".toList.all (fun c => !Blank.isBlank c) = true := by decide
  rcases mem_part h with h | h | rfl
  · simpa using List.all_eq_true.1 hkey c h
  · exact Blank.isBlank_of_isDigit h
  · decide

theorem comma_not_mem_part (version : FrameworkVersion) : ',' ∉ version.part := by
  intro h
  rcases mem_part h with h | h | h
  · exact absurd h (by decide)
  · exact absurd h (by decide)
  · exact absurd h (by decide)

end FrameworkVersion

/-! ## Families -/

namespace FrameworkFamily

variable {family : FrameworkFamily} {name : List Char}

/-- The name of the family in the long form tells the family: it is there, it stands between
    commas and blanks as it is, and it is looked up as the family. -/
structure Named (family : FrameworkFamily) : Prop where
  ne_nil : family.fullName.toList ≠ []
  trimmed : Blank.IsTrimmed family.fullName.toList
  undivided : ',' ∉ family.fullName.toList
  found : ofFullName family.fullName.toList = family

theorem named_of_known (h : family ∈ known) : Named family := by
  have hpresent : ∀ family ∈ known, family.fullName.toList ≠ [] := by decide
  have hunblank : ∀ family ∈ known,
      family.fullName.toList.all (fun c => !Blank.isBlank c) = true := by decide
  have hundivided : ∀ family ∈ known, ',' ∉ family.fullName.toList := by decide
  have hfound : ∀ family ∈ known, ofFullName family.fullName.toList = family := by decide
  have htrimmed : Blank.IsTrimmed family.fullName.toList := by
    refine Blank.isTrimmed_of_forall fun c hc => ?_
    simpa using List.all_eq_true.1 (hunblank family h) c hc
  exact ⟨hpresent family h, htrimmed, hundivided family h, hfound family h⟩

theorem named_other (hne : name ≠ []) (htrimmed : Blank.IsTrimmed name) (hcomma : ',' ∉ name)
    (hfound : ofFullName name = .other (String.ofList name)) :
    Named (.other (String.ofList name)) := by
  have hname : (fullName (.other (String.ofList name))).toList = name := String.toList_ofList
  constructor
  all_goals rw [hname]
  · exact hne
  · exact htrimmed
  · exact hcomma
  · exact hfound

/-- A name from between commas tells the family that is looked up by it. -/
theorem named_ofFullName (hne : name ≠ []) (htrimmed : Blank.IsTrimmed name)
    (hcomma : ',' ∉ name) : Named (ofFullName name) := by
  cases hfind : known.find? (fun family =>
      family.fullName.toList.map Char.toLower == name.map Char.toLower) with
  | some family =>
    have hfound : ofFullName name = family := by
      rw [ofFullName, hfind]
      rfl
    rw [hfound]
    exact named_of_known (List.mem_of_find?_eq_some hfind)
  | none =>
    have hfound : ofFullName name = .other (String.ofList name) := by
      rw [ofFullName, hfind]
      rfl
    rw [hfound]
    exact named_other hne htrimmed hcomma hfound

theorem fullName_eq_cons (h : family ∈ known) :
    ∃ tail, family.fullName.toList = '.' :: tail := by
  have hhead : ∀ family ∈ known, family.fullName.toList.head? = some '.' := by decide
  exact List.head?_eq_some_iff.1 (hhead family h)

/-- A name of letters tells its family: the families with a place of their own have a point in
    front of their names. -/
theorem named_of_isAlpha {name : String} (hne : name ≠ "")
    (hletters : name.toList.all Char.isAlpha = true) : Named (.other name) := by
  have hletter : ∀ c ∈ name.toList, c.isAlpha = true := List.all_eq_true.1 hletters
  have hcons : name.toList ≠ [] := by simpa using hne
  have hblank : ∀ c ∈ name.toList, Blank.isBlank c = false := fun c hc =>
    Blank.isBlank_of_isAlpha (hletter c hc)
  have hcomma : ',' ∉ name.toList := fun hc => absurd (hletter ',' hc) (by decide)
  have hfound : ofFullName name.toList = .other (String.ofList name.toList) := by
    obtain ⟨c, rest, hname⟩ := List.exists_cons_of_ne_nil hcons
    have hpoint : c ≠ '.' := by
      rintro rfl
      exact absurd (hletter '.' (by simp [hname])) (by decide)
    have hc : c.toLower ≠ '.' := (toLower_eq_iff rfl c).not.2 hpoint
    have hnone : known.find? (fun family =>
        family.fullName.toList.map Char.toLower == name.toList.map Char.toLower) = none := by
      rw [List.find?_eq_none]
      intro family hfamily heq
      obtain ⟨tail, htail⟩ := fullName_eq_cons hfamily
      rw [beq_iff_eq, htail, hname, List.map_cons, List.map_cons] at heq
      exact hc (List.cons.inj heq).1.symm
    rw [ofFullName, hnone]
    rfl
  have hnamed := named_other hcons (Blank.isTrimmed_of_forall hblank) hcomma hfound
  rwa [String.ofList_toList] at hnamed

end FrameworkFamily

/-! ## Frameworks -/

namespace TargetFramework

open FrameworkFamily

variable {f : TargetFramework} {text : List Char}

/-- What was read in the long form has no platform. -/
theorem parseFullName?_eq_some (h : parseFullName? text = some f) :
    f.family.Named ∧ f.version.Bounded ∧ f.platform = none := by
  unfold parseFullName? at h
  split at h
  · cases h
  · next family parts hfields =>
    split at h
    · cases h
    · next hne =>
      obtain ⟨version, hversion, h⟩ := Option.bind_eq_some_iff.1 h
      cases h
      -- the family is the first part, without blanks around it
      have hmem : family ∈ (Split.fields ',' text).map Blank.trim := by
        rw [hfields]
        exact List.mem_cons_self
      obtain ⟨part, hpart, rfl⟩ := List.mem_map.1 hmem
      refine ⟨named_ofFullName (by simpa using hne) (Blank.isTrimmed_trim part) ?_, ?_, rfl⟩
      · exact fun hcomma => Split.not_mem_of_mem_fields hpart (Blank.mem_of_mem_trim hcomma)
      · obtain ⟨versions, hversions, hlast⟩ := Option.bind_eq_some_iff.1 hversion
        obtain ⟨⟨key, value⟩, -, hvalue⟩ :=
          mem_of_mapM_eq_some hversions (List.mem_of_getLast? hlast)
        exact FrameworkVersion.bounded_of_parseDotted? hvalue

theorem named_of_familyOf? {name : String} {version : FrameworkVersion}
    {family : FrameworkFamily} (hne : name ≠ "") (h : familyOf? name version = some family) :
    family.Named := by
  obtain hknown | ⟨rfl, hletters, -⟩ := familyOf?_eq_some h
  · exact named_of_known hknown
  · exact named_of_isAlpha hne hletters

theorem parseShortName?_eq_some (h : parseShortName? text = some f) :
    f.family.Named ∧ f.version.Bounded := by
  obtain ⟨label, numbers, hread⟩ := parseShortName?_eq_some_iff.1 h
  have hlabel : String.ofList label ≠ "" := by simpa using hread.labelled
  refine ⟨named_of_familyOf? hlabel hread.family, ?_⟩
  have hversion := hread.version
  rw [versionOf?] at hversion
  split at hversion
  · exact FrameworkVersion.bounded_of_parseDotted? hversion
  · exact FrameworkVersion.bounded_of_parseCompact? hversion

theorem parse?_eq_some {text : String} (h : parse? text = some f) :
    f.family.Named ∧ f.version.Bounded := by
  rw [parse?] at h
  split at h
  · obtain ⟨hfamily, hversion, -⟩ := parseFullName?_eq_some h
    exact ⟨hfamily, hversion⟩
  · exact parseShortName?_eq_some h

/-- The only part behind the family gives the version. -/
theorem versionAmong?_single {key value : List Char} (hkey : isVersionKey (Blank.trim key) = true)
    (hmark : '=' ∉ key) :
    versionAmong? [key ++ '=' :: value] = FrameworkVersion.parseDotted? (Blank.trim value) := by
  rw [versionAmong?]
  simp only [List.filterMap_cons, List.filterMap_nil, Split.atFirst?_append hmark,
    Option.filter_some, hkey, if_true]
  rw [List.mapM_cons, List.mapM_nil]
  cases FrameworkVersion.parseDotted? (Blank.trim value) <;> rfl

theorem versionAmong?_part {version : FrameworkVersion} (h : version.Bounded) :
    versionAmong? [version.part] = some version := by
  have hvalue : Blank.IsTrimmed ('v' :: version.dotted.toList) := by
    refine Blank.isTrimmed_of_forall fun c hc => ?_
    have hpart : c ∈ version.part := by
      rw [version.part_eq]
      exact List.mem_append_right _ (List.mem_cons_of_mem _ hc)
    exact FrameworkVersion.isBlank_part hpart
  rw [version.part_eq, versionAmong?_single (by decide) (by decide),
    Blank.trim_eq_self hvalue]
  exact FrameworkVersion.parseDotted?_dotted h

theorem toList_fullName (f : TargetFramework) :
    f.fullName.toList = f.family.fullName.toList ++ ',' :: f.version.part := by
  have hmark : ",Version=v" = "," ++ "Version=v" := by decide
  rw [fullName, hmark, FrameworkVersion.part]
  simp only [String.toList_append, List.append_assoc]
  rfl

/-- A framework is read from its long form without the platform, if its name tells its family
    and its version can be read. -/
theorem parse?_of_named (hfamily : f.family.Named) (hversion : f.version.Bounded) :
    parse? f.fullName = some { f with platform := none } := by
  obtain ⟨family, version, platform⟩ := f
  obtain ⟨hne, htrimmed, hcomma, hfound⟩ := hfamily
  have hpart : Blank.IsTrimmed version.part :=
    Blank.isTrimmed_of_forall fun _ hc => FrameworkVersion.isBlank_part hc
  have htrim := Blank.trim_eq_self (htrimmed.join hpart hne version.part_ne_nil ',')
  have hfields : (Split.fields ',' (family.fullName.toList ++ ',' :: version.part)).map Blank.trim =
      [family.fullName.toList, version.part] := by
    have hjoin : family.fullName.toList ++ ',' :: version.part =
        [','].intercalate [family.fullName.toList, version.part] := by
      simp [List.intercalate_cons_cons]
    rw [hjoin, Split.fields_intercalate _ (List.cons_ne_nil _ _)]
    · simp [Blank.trim_eq_self htrimmed, Blank.trim_eq_self hpart]
    · simp [hcomma, version.comma_not_mem_part]
  rw [parse?, toList_fullName, htrim, if_pos (by simp), parseFullName?, hfields]
  simp [hne, versionAmong?_part hversion, hfound]

/-- **A framework that was read is read again from its long form, with its family and its version,
    just if it has no platform.** -/
theorem parse?_fullName {text : String} (h : parse? text = some f) :
    parse? f.fullName = some f ↔ f.platform = none := by
  obtain ⟨hfamily, hversion⟩ := parse?_eq_some h
  rw [parse?_of_named hfamily hversion, Option.some.injEq]
  constructor
  · intro heq
    rw [← heq]
  · intro hnone
    rw [← hnone]

/-- The framework of a moniker with a profile. -/
def profiled : TargetFramework where
  family := .other "Xamarin.iOS"
  version := { major := 1, build := 7 }

theorem parse?_fullName_profiled :
    parse? " Xamarin.iOS , VERSION = V1.0.+7,Profile=Full " = some profiled ∧
      profiled.platform = none ∧ parse? profiled.fullName = some profiled := by
  have hread : parse? " Xamarin.iOS , VERSION = V1.0.+7,Profile=Full " = some profiled := by
    decide
  exact ⟨hread, rfl, (parse?_fullName hread).2 rfl⟩

/-- The platform is not written in the long form. -/
example : (parse? "NET6.0-Windows").map (parse? ·.fullName) =
    some (some { family := .netCoreApp, version := { major := 6 } }) := by decide

end TargetFramework

end ApiCensus
