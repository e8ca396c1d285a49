/-
  Which frameworks share a short name.

  * `FrameworkVersion.dotted_inj`: with points between them, the numbers of a version can be told
    apart; `FrameworkVersion.eq_of_compact`: without points, those of one digit can.
  * `TargetFramework.Alias`: another framework with the same short name, with digits that run
    together or with a family whose name reaches into the numbers.
  * `TargetFramework.shortName_eq_iff`: there are no others.
  * `TargetFramework.parseShortName?_eq_some_iff`: the parts of a short name that is read.
  * `TargetFramework.eq_of_shortName`: with plain families, as those that are read from short
    names are, and numbers of one digit, no two frameworks share a short name.
-/
import ApiCensus.Framework
import ApiCensus.Proofs.Text.Fields
import Mathlib.Data.List.TakeWhile

namespace ApiCensus

/-! ## The numbers of a version -/

namespace FrameworkVersion

theorem toList_toString (n : Nat) : (toString n).toList = Nat.toDigits 10 n := by
  rw [Nat.toString_eq_ofList_toDigits, String.toList_ofList]

theorem isDigit_of_mem {n : Nat} {c : Char} (h : c ∈ Nat.toDigits 10 n) : c.isDigit = true :=
  Nat.isDigit_of_mem_toDigits (by decide) (by decide) h

theorem toDigits_inj {m n : Nat} (h : Nat.toDigits 10 m = Nat.toDigits 10 n) : m = n := by
  have hvalue := congrArg (fun digits => Nat.ofDigitChars 10 digits 0) h
  simpa using hvalue

/-- The digits of the significant numbers. -/
def digits (version : FrameworkVersion) : List (List Char) :=
  version.significant.map (Nat.toDigits 10)

theorem toList_dotted (version : FrameworkVersion) :
    version.dotted.toList = ['.'].intercalate version.digits := by
  rw [dotted, String.toList_intercalate, digits, List.map_map]
  congr 1
  exact List.map_congr_left fun n _ => toList_toString n

theorem toList_compact (version : FrameworkVersion) :
    version.compact.toList = version.digits.flatten := by
  rw [compact, String.toList_join, digits, List.flatMap_map, ← List.flatMap_def]
  congr 1
  exact funext toList_toString

/-- Numbers that are not significant are 0. -/
theorem components_eq (version : FrameworkVersion) :
    version.components = (version.significant ++ [0, 0]).take 4 := by
  simp only [components, significant]
  split
  · rfl
  · next hrevision =>
    obtain hrevision : version.revision = 0 := by simpa using hrevision
    split
    · simp [hrevision]
    · next hbuild =>
      obtain hbuild : version.build = 0 := by simpa using hbuild
      simp [hrevision, hbuild]

variable {a b : FrameworkVersion}

theorem mem_components {n : Nat} (h : n ∈ a.significant) : n ∈ a.components := by
  unfold significant at h
  split at h
  · exact h
  split at h
  all_goals
    simp only [components, List.mem_append, List.mem_cons, List.not_mem_nil, or_false] at h ⊢
    omega

theorem significant_inj (h : a.significant = b.significant) : a = b := by
  have hcomponents : a.components = b.components := by
    rw [components_eq, h, ← components_eq]
  cases a
  cases b
  simpa [components] using hcomponents

theorem digits_inj (h : a.digits = b.digits) : a = b :=
  significant_inj (List.map_inj_right (fun _ _ => toDigits_inj) |>.1 h)

theorem not_mem_digits {c : Char} (hc : c.isDigit = false) {number : List Char}
    (h : number ∈ a.digits) : c ∉ number := by
  obtain ⟨n, -, rfl⟩ := List.mem_map.1 h
  intro hmem
  rw [isDigit_of_mem hmem] at hc
  cases hc

theorem digits_ne_nil : a.digits ≠ [] := by
  simp [digits, significant]

/-- The numbers between the points are the numbers of the version. -/
theorem dotted_inj (h : a.dotted = b.dotted) : a = b := by
  have hlist := congrArg (fun text => text.toList.splitOn '.') h
  simp only [toList_dotted] at hlist
  rw [List.splitOn_intercalate _ (fun _ => not_mem_digits rfl) digits_ne_nil,
    List.splitOn_intercalate _ (fun _ => not_mem_digits rfl) digits_ne_nil] at hlist
  exact digits_inj hlist

/-- The numbers as the short form has them, with points or without. -/
def written (version : FrameworkVersion) (compact : Bool) : List Char :=
  if compact then version.digits.flatten else ['.'].intercalate version.digits

theorem digits_eq_cons (version : FrameworkVersion) :
    ∃ rest, version.digits
      = Nat.toDigits 10 version.major :: Nat.toDigits 10 version.minor :: rest :=
  ⟨_, rfl⟩

theorem written_eq_cons (version : FrameworkVersion) (compact : Bool) :
    ∃ d rest, version.written compact = d :: rest ∧ d.isDigit = true := by
  obtain ⟨rest, hdigits⟩ := version.digits_eq_cons
  obtain ⟨d, number, hmajor⟩ :=
    List.exists_cons_of_ne_nil (Nat.toDigits_ne_nil (n := version.major) (b := 10))
  have hd : d.isDigit = true := isDigit_of_mem (n := version.major) (by simp [hmajor])
  cases compact <;> simp [written, hdigits, hmajor, List.intercalate_cons_cons, hd]

theorem not_mem_intercalate {mark c : Char} (hc : c ≠ mark) {numbers : List (List Char)}
    (h : ∀ number ∈ numbers, c ∉ number) : c ∉ [mark].intercalate numbers := by
  induction numbers with
  | nil => simp
  | cons number rest ih =>
    obtain ⟨hnumber, hrest⟩ := List.forall_mem_cons.1 h
    cases rest with
    | nil => simpa using hnumber
    | cons next rest =>
      rw [List.intercalate_cons_cons, List.mem_append, List.mem_append, List.mem_singleton]
      rintro ((hmem | rfl) | hmem)
      · exact hnumber hmem
      · exact hc rfl
      · exact ih hrest hmem

theorem not_mem_flatten_digits {c : Char} (hc : c.isDigit = false) : c ∉ a.digits.flatten := by
  intro hmem
  obtain ⟨number, hnumber, hmem⟩ := List.mem_flatten.1 hmem
  exact not_mem_digits hc hnumber hmem

theorem not_mem_written {compact : Bool} {c : Char} (hdigit : c.isDigit = false)
    (hpoint : c ≠ '.') : c ∉ a.written compact := by
  cases compact with
  | true => exact not_mem_flatten_digits hdigit
  | false => exact not_mem_intercalate hpoint fun _ => not_mem_digits hdigit

theorem isDigit_or_point {compact : Bool} {c : Char} (h : c ∈ a.written compact) :
    c.isDigit = true ∨ c = '.' := by
  by_contra hnot
  obtain ⟨hdigit, hpoint⟩ := not_or.1 hnot
  exact not_mem_written (by simpa using hdigit) hpoint h

theorem mem_point_written {compact : Bool} : '.' ∈ a.written compact ↔ compact = false := by
  cases compact with
  | true => simpa [written] using not_mem_flatten_digits (a := a) rfl
  | false =>
    obtain ⟨rest, hdigits⟩ := a.digits_eq_cons
    simp [written, hdigits, List.intercalate_cons_cons]

/-- Points tell that the numbers are not compact, and then they tell the version. -/
theorem written_inj {p q : Bool} (h : a.written p = b.written q) :
    p = q ∧ (p = false → a = b) := by
  have hpoint : '.' ∈ a.written p ↔ '.' ∈ b.written q := by rw [h]
  rw [mem_point_written, mem_point_written] at hpoint
  obtain rfl : p = q := by cases p <;> cases q <;> simp_all
  refine ⟨rfl, ?_⟩
  rintro rfl
  exact dotted_inj (String.toList_inj.1 (by simpa [written, toList_dotted] using h))

/-- The numbers of a version have one digit each. -/
def OneDigit (version : FrameworkVersion) : Prop :=
  ∀ n ∈ version.components, n < 10

theorem OneDigit.significant (h : a.OneDigit) : ∀ n ∈ a.significant, n < 10 :=
  fun n hn => h n (mem_components hn)

theorem flatten_digits (h : a.OneDigit) : a.digits.flatten = a.significant.map Nat.digitChar := by
  have hsingle : a.digits = a.significant.map fun n => [n.digitChar] :=
    List.map_congr_left fun n hn => Nat.toDigits_of_lt_base (h.significant n hn)
  rw [hsingle, ← List.flatMap_def, ← List.map_eq_flatMap]

/-- Numbers of one digit can be told apart without points. -/
theorem eq_of_compact (ha : a.OneDigit) (hb : b.OneDigit)
    (h : a.digits.flatten = b.digits.flatten) : a = b := by
  have hvalues {version : FrameworkVersion} (hv : version.OneDigit) :
      version.digits.flatten.map (fun c => c.toNat - 48) = version.significant := by
    rw [flatten_digits hv, List.map_map]
    exact (List.map_congr_left fun n hn =>
      Nat.toNat_digitChar_sub_48_of_lt_ten (hv.significant n hn)).trans (List.map_id _)
  apply significant_inj
  rw [← hvalues ha, h, hvalues hb]

end FrameworkVersion

/-! ## The parts of a short name -/

namespace FrameworkFamily

/-- The numbers have no points between them in the short form. -/
def isCompact : FrameworkFamily → Bool
  | .netFramework | .netCore => true
  | _ => false

theorem mem_known_or_other (family : FrameworkFamily) :
    family ∈ known ∨ ∃ name, family = .other name := by
  cases family with
  | other name => exact Or.inr ⟨name, rfl⟩
  | _ => exact Or.inl (by decide)

end FrameworkFamily

namespace TargetFramework

/-- The label in front of the numbers of the short name. -/
def label (framework : TargetFramework) : String :=
  match framework.family with
  | .netFramework => "net"
  | .netCore => "netcore"
  | .netCoreApp => if 5 ≤ framework.version.major then "net" else "netcoreapp"
  | .netStandard => "netstandard"
  | .other name => name

/-- The short name behind the label: the numbers and perhaps the platform. -/
def behindLabel (framework : TargetFramework) : List Char :=
  framework.version.written framework.family.isCompact
    ++ framework.platform.elim [] fun platform => '-' :: platform.toList

variable {f g : TargetFramework}

theorem toList_shortName (f : TargetFramework) :
    f.shortName.toList = f.label.toList ++ f.behindLabel := by
  obtain ⟨family, version, platform⟩ := f
  have hplatform : (platform.elim "" ("-" ++ ·)).toList
      = platform.elim [] fun platform => '-' :: platform.toList := by
    cases platform <;> simp
  have hstem : (shortStem ⟨family, version, platform⟩).toList
      = (label ⟨family, version, platform⟩).toList ++ version.written family.isCompact := by
    cases family <;>
      simp [shortStem, label, FrameworkVersion.written, FrameworkFamily.isCompact,
        FrameworkVersion.toList_dotted, FrameworkVersion.toList_compact]
  rw [shortName, String.toList_append, hstem, hplatform, behindLabel, List.append_assoc]

theorem behindLabel_eq_cons (f : TargetFramework) :
    ∃ d rest, f.behindLabel = d :: rest ∧ d.isDigit = true := by
  obtain ⟨d, rest, hwritten, hd⟩ := f.version.written_eq_cons f.family.isCompact
  exact ⟨d, _, by rw [behindLabel, hwritten, List.cons_append], hd⟩

/-- Behind the label stands a digit. -/
theorem eq_nil_of_not_isDigit {reach rest : List Char} (h : f.behindLabel = reach ++ rest)
    (hreach : ∀ c ∈ reach, c.isDigit = false) : reach = [] := by
  obtain ⟨d, numbers, hbehind, hd⟩ := f.behindLabel_eq_cons
  cases reach with
  | nil => rfl
  | cons c reach =>
    obtain ⟨rfl, -⟩ := List.cons.inj (hbehind.symm.trans h)
    have hnot := hreach d List.mem_cons_self
    rw [hd] at hnot
    cases hnot

/-- The numbers end where the platform begins. -/
theorem behindLabel_inj (h : f.behindLabel = g.behindLabel) :
    f.version.written f.family.isCompact = g.version.written g.family.isCompact ∧
      f.platform = g.platform := by
  have hnumbers (framework : TargetFramework) : framework.behindLabel.takeWhile (· ≠ '-')
      = framework.version.written framework.family.isCompact := by
    have hnot : '-' ∉ framework.version.written framework.family.isCompact :=
      FrameworkVersion.not_mem_written rfl (by decide)
    rw [behindLabel, List.takeWhile_append_of_pos]
    · cases framework.platform <;> simp
    · intro c hc
      simpa using ne_of_mem_of_not_mem hc hnot
  have hwritten : f.version.written f.family.isCompact = g.version.written g.family.isCompact := by
    rw [← hnumbers f, h, hnumbers g]
  rw [behindLabel, behindLabel, hwritten] at h
  refine ⟨hwritten, ?_⟩
  have hplatform := List.append_cancel_left h
  cases hf : f.platform <;> cases hg : g.platform <;> simp_all [String.toList_inj]

/-! ## Frameworks with one short name -/

/-- Another framework with the short name of `f`. -/
inductive Alias (f : TargetFramework) : TargetFramework → Prop where
  /-- The digits of both versions run together. -/
  | digits {g : TargetFramework} (compact : f.family.isCompact = true)
      (family : g.family = f.family) (platform : g.platform = f.platform)
      (digits : g.version.digits.flatten = f.version.digits.flatten) : Alias f g
  /-- A family without a place of its own is named like the label of `f` and perhaps the
      characters behind it. -/
  | reaching {g : TargetFramework} (reach : List Char)
      (family : g.family = .other (f.label ++ String.ofList reach))
      (rest : f.behindLabel = reach ++ g.behindLabel) : Alias f g

theorem Alias.shortName_eq (h : f.Alias g) : f.shortName = g.shortName := by
  apply String.toList_inj.1
  rw [toList_shortName, toList_shortName]
  cases h with
  | digits compact family platform digits =>
    obtain ⟨family', version, platform'⟩ := f
    cases family' <;> cases compact
    all_goals simp_all [label, behindLabel, FrameworkVersion.written, FrameworkFamily.isCompact]
  | reaching reach family rest =>
    have hlabel : g.label = f.label ++ String.ofList reach := by rw [label, family]
    rw [hlabel, rest]
    simp

/-- The labels of the families with a place of their own. -/
def labels : List String :=
  ["net", "netcore", "netcoreapp", "netstandard"]

theorem label_mem_labels (h : f.family ∈ FrameworkFamily.known) : f.label ∈ labels := by
  obtain ⟨family, version, platform⟩ := f
  cases family with
  | other name => simp [FrameworkFamily.known] at h
  | netCoreApp =>
    rw [label]
    dsimp only
    split <;> decide
  | _ => simp [label, labels]

theorem not_isDigit_label (h : f.family ∈ FrameworkFamily.known) :
    ∀ c ∈ f.label.toList, c.isDigit = false := by
  have hall : labels.all (fun name => name.toList.all fun c => !c.isDigit) = true := by decide
  have hlabel := List.all_eq_true.1 hall _ (label_mem_labels h)
  intro c hc
  simpa using List.all_eq_true.1 hlabel c hc

/-- Of the families with a place of their own, the label and the use of points tell which. -/
theorem family_eq_of_label (hf : f.family ∈ FrameworkFamily.known)
    (hg : g.family ∈ FrameworkFamily.known) (hlabel : f.label = g.label)
    (hcompact : f.family.isCompact = g.family.isCompact) : f.family = g.family := by
  obtain ⟨ffamily, fversion, _⟩ := f
  obtain ⟨gfamily, gversion, _⟩ := g
  cases ffamily <;> cases gfamily
  all_goals simp [FrameworkFamily.known] at hf hg
  all_goals simp [label, FrameworkFamily.isCompact] at hlabel hcompact ⊢
  all_goals split at hlabel <;> simp at hlabel

theorem eq_of_parts (family : f.family = g.family) (version : f.version = g.version)
    (platform : f.platform = g.platform) : f = g := by
  cases f
  cases g
  simp_all

theorem eq_or_alias_of_known (hf : f.family ∈ FrameworkFamily.known)
    (hg : g.family ∈ FrameworkFamily.known) (hlabel : f.label = g.label)
    (hbehind : f.behindLabel = g.behindLabel) : f = g ∨ f.Alias g := by
  obtain ⟨hwritten, hplatform⟩ := behindLabel_inj hbehind
  obtain ⟨hcompact, hversion⟩ := FrameworkVersion.written_inj hwritten
  have hfamily := family_eq_of_label hf hg hlabel hcompact
  cases hpoints : f.family.isCompact with
  | true =>
    refine Or.inr (.digits hpoints hfamily.symm hplatform.symm ?_)
    rw [← hcompact, hpoints] at hwritten
    exact hwritten.symm
  | false =>
    refine Or.inl ?_
    exact eq_of_parts hfamily (hversion hpoints) hplatform

/-- The label of `g` ends behind the label of `f` or at the same place. -/
theorem eq_or_alias_of_reach {reach : List Char}
    (hlabel : g.label.toList = f.label.toList ++ reach)
    (hrest : f.behindLabel = reach ++ g.behindLabel) : f = g ∨ f.Alias g ∨ g.Alias f := by
  obtain hg | ⟨name, hg⟩ := g.family.mem_known_or_other
  · -- no digit is in the label of `g`, so it ends where the numbers of `f` begin
    obtain rfl := eq_nil_of_not_isDigit hrest fun c hc =>
      not_isDigit_label hg c (by simp [hlabel, hc])
    have hsame : f.label = g.label := String.toList_inj.1 (by simpa using hlabel.symm)
    obtain hf | ⟨name, hf⟩ := f.family.mem_known_or_other
    · exact (eq_or_alias_of_known hf hg hsame hrest).imp_right Or.inl
    · refine Or.inr (Or.inr (.reaching [] ?_ hrest.symm))
      rw [← hsame, hf, label, hf]
      simp
  · refine Or.inr (Or.inl (.reaching reach ?_ hrest))
    have hname : g.label = f.label ++ String.ofList reach :=
      String.toList_inj.1 (by simpa using hlabel)
    rw [← hname, hg, label, hg]

/-- **Frameworks with one short name.** -/
theorem shortName_eq_iff (f g : TargetFramework) :
    f.shortName = g.shortName ↔ f = g ∨ f.Alias g ∨ g.Alias f := by
  constructor
  · intro h
    have hlist : f.label.toList ++ f.behindLabel = g.label.toList ++ g.behindLabel := by
      rw [← toList_shortName, h, toList_shortName]
    obtain ⟨reach, hlabel, hrest⟩ | ⟨reach, hlabel, hrest⟩ := List.append_eq_append_iff.1 hlist
    · exact eq_or_alias_of_reach hlabel hrest
    · exact (eq_or_alias_of_reach hlabel hrest).imp Eq.symm Or.symm
  · rintro (rfl | h | h)
    · rfl
    · exact h.shortName_eq
    · exact h.shortName_eq.symm

/-! ## Short names that are read -/

/-- A family with a place of its own, or one with a name of letters that is not their label. -/
def Plain (family : FrameworkFamily) : Prop :=
  family ∈ FrameworkFamily.known ∨
    ∃ name, family = .other name ∧ name.toList.all Char.isAlpha = true ∧ name ∉ labels

/-- A family that is found by its name in the short form has a place of its own, or that name. -/
theorem familyOf?_eq_some {name : String} {version : FrameworkVersion}
    {family : FrameworkFamily} (h : familyOf? name version = some family) :
    family ∈ FrameworkFamily.known ∨
      family = .other name ∧ name.toList.all Char.isAlpha = true ∧ name ∉ labels := by
  unfold familyOf? at h
  split at h
  · cases h
    refine Or.inl ?_
    split <;> decide
  · cases h
    exact Or.inl (by decide)
  · cases h
    exact Or.inl (by decide)
  · cases h
    exact Or.inl (by decide)
  · next hnet hcoreApp hstandard hcore =>
    obtain ⟨hadmitted, h⟩ := Option.ite_none_right_eq_some.1 h
    cases h
    refine Or.inr ⟨rfl, (Bool.and_eq_true_iff.1 hadmitted).1, ?_⟩
    simpa [labels] using ⟨hnet, hcore, hcoreApp, hstandard⟩

theorem plain_of_familyOf? {name : String} {version : FrameworkVersion}
    {family : FrameworkFamily} (h : familyOf? name version = some family) : Plain family :=
  (familyOf?_eq_some h).imp_right fun hother => ⟨name, hother⟩

/-- The version behind the label of a short name. -/
def versionOf? (numbers : List Char) : Option FrameworkVersion :=
  if numbers.contains '.' then FrameworkVersion.parseDotted? numbers
  else FrameworkVersion.parseCompact? numbers

/-- The framework of the parts of a short name. -/
def ofParts? (label numbers : List Char) (platform : Option String) : Option TargetFramework := do
  let version ← versionOf? numbers
  let family ← familyOf? (String.ofList label) version
  if platform.isSome && !admitsPlatform family version then none
  else some { family, version, platform }

theorem ofParts?_eq_some_iff {label numbers : List Char} {platform : Option String} :
    ofParts? label numbers platform = some f ↔
      versionOf? numbers = some f.version ∧
        familyOf? (String.ofList label) f.version = some f.family ∧ platform = f.platform ∧
        (f.platform.isSome = true → admitsPlatform f.family f.version = true) := by
  constructor
  · intro h
    obtain ⟨version, hversion, h⟩ := Option.bind_eq_some_iff.1 h
    obtain ⟨family, hfamily, h⟩ := Option.bind_eq_some_iff.1 h
    obtain ⟨hadmitted, h⟩ := Option.ite_none_left_eq_some.1 h
    cases h
    exact ⟨hversion, hfamily, rfl, by simpa using hadmitted⟩
  · rintro ⟨hversion, hfamily, rfl, hadmitted⟩
    rw [ofParts?, hversion, Option.bind_eq_bind, Option.bind_some, hfamily, Option.bind_eq_bind,
      Option.bind_some, if_neg (by simpa using hadmitted)]

/-- What stands in a short name behind the numbers. -/
def platformPart (platform : Option String) : List Char :=
  platform.elim [] fun platform => '-' :: platform.toList

theorem splitPlatform?_eq_some_iff {text name : List Char} {platform : Option String} :
    splitPlatform? text = some (name, platform) ↔
      text = name ++ platformPart platform ∧ '-' ∉ name ∧ platform ≠ some "" := by
  rw [splitPlatform?]
  constructor
  · intro h
    split at h
    · next hmark =>
      cases h
      exact ⟨(List.append_nil text).symm, Split.atFirst?_eq_none_iff.1 hmark, by simp⟩
    · next found behind hmark =>
      obtain ⟨hne, h⟩ := Option.ite_none_left_eq_some.1 h
      cases h
      obtain ⟨htext, hname⟩ := Split.atFirst?_eq_some_iff.1 hmark
      refine ⟨?_, hname, by simpa using hne⟩
      rw [htext, platformPart, Option.elim_some, String.toList_ofList]
  · rintro ⟨rfl, hname, hplatform⟩
    cases platform with
    | none => simp [platformPart, Split.atFirst?_eq_none_iff.2 hname]
    | some platform =>
      have hne : platform ≠ "" := fun hempty => hplatform (by rw [hempty])
      simp [platformPart, Split.atFirst?_append hname, hne]

/-- A text in lower case is a short name of a framework: a label, numbers and perhaps a
    platform. -/
structure ReadsShort (text label numbers : List Char) (f : TargetFramework) : Prop where
  parts : text = (label ++ numbers) ++ platformPart f.platform
  single : '+' ∉ text
  undivided : '-' ∉ label ++ numbers
  present : f.platform ≠ some ""
  labelled : label ≠ []
  unnumbered : ∀ c ∈ label, c.isDigit = false
  numbered : ∀ c ∈ numbers.head?, c.isDigit = true
  version : versionOf? numbers = some f.version
  family : familyOf? (String.ofList label) f.version = some f.family
  admitted : f.platform.isSome = true → admitsPlatform f.family f.version = true

theorem takeWhile_label {label numbers : List Char} (hlabel : ∀ c ∈ label, c.isDigit = false)
    (hnumbers : ∀ c ∈ numbers.head?, c.isDigit = true) :
    (label ++ numbers).takeWhile (fun c => !c.isDigit) = label := by
  have hnone : numbers.takeWhile (fun c => !c.isDigit) = [] := by
    cases numbers with
    | nil => rfl
    | cons c rest => simp [hnumbers c rfl]
  rw [List.takeWhile_append_of_pos (by simpa using hlabel), hnone, List.append_nil]

theorem drop_takeWhile (p : Char → Bool) (cs : List Char) :
    cs.drop (cs.takeWhile p).length = cs.dropWhile p := by
  conv_lhs =>
    arg 2
    rw [← List.takeWhile_append_dropWhile (p := p) (l := cs)]
  rw [List.drop_left]

theorem parseShortName?_eq (text : List Char) :
    parseShortName? text =
      if '+' ∈ text.map Char.toLower then none
      else (splitPlatform? (text.map Char.toLower)).bind fun (name, platform) =>
        let label := name.takeWhile fun c => !c.isDigit
        if label = [] then none
        else ofParts? label (name.dropWhile fun c => !c.isDigit) platform := by
  simp only [parseShortName?, ofParts?, versionOf?, List.contains_iff_mem, List.isEmpty_iff,
    Option.bind_eq_bind, drop_takeWhile]
  refine if_congr Iff.rfl rfl (congrArg _ (funext fun ⟨name, platform⟩ => ?_))
  refine if_congr Iff.rfl rfl ?_
  split <;> rfl

/-- The parts of a short name. -/
theorem parseShortName?_eq_some_iff {text : List Char} :
    parseShortName? text = some f ↔
      ∃ label numbers, ReadsShort (text.map Char.toLower) label numbers f := by
  rw [parseShortName?_eq, Option.ite_none_left_eq_some, Option.bind_eq_some_iff]
  constructor
  · rintro ⟨hsingle, ⟨name, platform⟩, hparts, h⟩
    obtain ⟨hlabelled, h⟩ := Option.ite_none_left_eq_some.1 h
    obtain ⟨hversion, hfamily, rfl, hadmitted⟩ := ofParts?_eq_some_iff.1 h
    obtain ⟨htext, hname, hpresent⟩ := splitPlatform?_eq_some_iff.1 hparts
    rw [← List.takeWhile_append_dropWhile (p := fun c : Char => !c.isDigit) (l := name)]
      at htext hname
    refine ⟨_, _, htext, hsingle, hname, hpresent, hlabelled, ?_, ?_, hversion, hfamily, hadmitted⟩
    · intro c hc
      simpa using List.mem_takeWhile_imp hc
    · intro c hc
      have hnot := List.head?_dropWhile_not (fun c : Char => !c.isDigit) name
      rw [hc] at hnot
      simpa using hnot
  · rintro ⟨label, numbers, h⟩
    have hparts := splitPlatform?_eq_some_iff.2 ⟨h.parts, h.undivided, h.present⟩
    have hlabel := takeWhile_label h.unnumbered h.numbered
    have hnumbers : (label ++ numbers).dropWhile (fun c => !c.isDigit) = numbers := by
      rw [← drop_takeWhile, hlabel, List.drop_left]
    refine ⟨h.single, _, hparts, ?_⟩
    dsimp only
    rw [hlabel, if_neg h.labelled, hnumbers]
    exact ofParts?_eq_some_iff.2 ⟨h.version, h.family, rfl, h.admitted⟩

theorem plain_of_parseShortName? {text : List Char} (h : parseShortName? text = some f) :
    Plain f.family := by
  obtain ⟨label, numbers, hread⟩ := parseShortName?_eq_some_iff.1 h
  exact plain_of_familyOf? hread.family

/-- With plain families, only digits that run together make a short name ambiguous. -/
theorem Alias.eq_or_digits (h : f.Alias g) (hf : Plain f.family) (hg : Plain g.family) :
    f = g ∨ g.family = f.family ∧ g.platform = f.platform ∧
      g.version.digits.flatten = f.version.digits.flatten := by
  cases h with
  | digits compact family platform digits => exact Or.inr ⟨family, platform, digits⟩
  | reaching reach family rest =>
    obtain hknown | ⟨name, hname, hletters, hlabels⟩ := hg
    · simp [family, FrameworkFamily.known] at hknown
    rw [family] at hname
    obtain rfl := FrameworkFamily.other.inj hname
    -- a letter is no digit, so the name of `g` ends where the numbers of `f` begin
    obtain rfl := eq_nil_of_not_isDigit rest fun c hc =>
      not_isDigit_of_isAlpha (List.all_eq_true.1 hletters c (by simp [hc]))
    obtain hf | ⟨name, hname, -⟩ := hf
    · exact absurd (label_mem_labels hf) (by simpa using hlabels)
    refine Or.inl ?_
    obtain ⟨hwritten, hplatform⟩ := behindLabel_inj rest
    have hsame : f.family = g.family := by
      rw [family, label, hname]
      simp
    have hversion := (FrameworkVersion.written_inj hwritten).2 (by rw [hname]; rfl)
    exact eq_of_parts hsame hversion hplatform

/-- With plain families and numbers of one digit, a short name is that of one framework. -/
theorem eq_of_shortName (hf : Plain f.family) (hg : Plain g.family) (hfone : f.version.OneDigit)
    (hgone : g.version.OneDigit) (h : f.shortName = g.shortName) : f = g := by
  obtain rfl | halias | halias := (shortName_eq_iff f g).1 h
  · rfl
  · obtain rfl | ⟨family, platform, digits⟩ := halias.eq_or_digits hf hg
    · rfl
    · exact eq_of_parts family.symm (FrameworkVersion.eq_of_compact hfone hgone digits.symm)
        platform.symm
  · obtain rfl | ⟨family, platform, digits⟩ := halias.eq_or_digits hg hf
    · rfl
    · exact eq_of_parts family (FrameworkVersion.eq_of_compact hfone hgone digits) platform

end TargetFramework

end ApiCensus
