/-
  Target frameworks, in the short form of folder names (`net8.0-windows`) and in the long form
  of monikers (`.NETCoreApp,Version=v8.0`).

  * `TargetFramework.parse?`: reads both forms.
  * `TargetFramework.shortName`, `TargetFramework.fullName`: write them.
-/
import ApiCensus.Text.Blank
import ApiCensus.Text.Numeral
import ApiCensus.Text.Split

namespace ApiCensus

/-- A family of frameworks. -/
inductive FrameworkFamily where
  | netFramework | netCoreApp | netStandard | netCore
  /-- A family without a place of its own here. -/
  | other (name : String)
  deriving Repr, DecidableEq, Hashable, Inhabited

namespace FrameworkFamily

/-- The families with a place of their own. -/
def known : List FrameworkFamily :=
  [.netFramework, .netCoreApp, .netStandard, .netCore]

/-- The name in the long form. -/
def fullName : FrameworkFamily → String
  | .netFramework => ".NETFramework"
  | .netCoreApp => ".NETCoreApp"
  | .netStandard => ".NETStandard"
  | .netCore => ".NETCore"
  | .other name => name

/-- The family with a given name in the long form, without a regard to case. -/
def ofFullName (name : List Char) : FrameworkFamily :=
  let folded := name.map Char.toLower
  (known.find? fun family => family.fullName.toList.map Char.toLower == folded).getD
    (.other (String.ofList name))

end FrameworkFamily

/-- A version of a framework. -/
structure FrameworkVersion where
  major : Nat
  minor : Nat := 0
  build : Nat := 0
  revision : Nat := 0
  deriving Repr, DecidableEq, Hashable, Inhabited

namespace FrameworkVersion

/-- The four numbers. -/
def components (version : FrameworkVersion) : List Nat :=
  [version.major, version.minor, version.build, version.revision]

/-- The version with the given numbers, of which there are four at most; the others are 0. -/
def ofComponents? : List Nat → Option FrameworkVersion
  | [] => some { major := 0 }
  | [major] => some { major }
  | [major, minor] => some { major, minor }
  | [major, minor, build] => some { major, minor, build }
  | [major, minor, build, revision] => some { major, minor, build, revision }
  | _ => none

/-- The order of versions: the first numbers that differ decide. -/
def order (a b : FrameworkVersion) : Ordering :=
  compareLex (compareOn (·.major))
    (compareLex (compareOn (·.minor)) (compareLex (compareOn (·.build)) (compareOn (·.revision))))
    a b

/-- One more than the largest number in a version. -/
def componentBound : Nat := 0x100000000

/-- Reads one to four numbers with points between them; a `v` may stand in front. -/
def parseDotted? (text : List Char) : Option FrameworkVersion := do
  let text := match text with
    | 'v' :: rest => rest
    | 'V' :: rest => rest
    | _ => text
  let components ← (Split.fields '.' text).mapM (Numeral.nat? componentBound)
  ofComponents? components

/-- Reads up to four digits, each of which is a number. -/
def parseCompact? (text : List Char) : Option FrameworkVersion := do
  let components ← text.mapM Numeral.decimal?
  ofComponents? components

/-- The numbers without zeros at the end, but two at least. -/
def significant (version : FrameworkVersion) : List Nat :=
  [version.major, version.minor] ++
    if version.revision ≠ 0 then [version.build, version.revision]
    else if version.build ≠ 0 then [version.build]
    else []

/-- The significant numbers with points between them. -/
def dotted (version : FrameworkVersion) : String :=
  String.intercalate "." (version.significant.map toString)

/-- The significant numbers one behind the other. -/
def compact (version : FrameworkVersion) : String :=
  String.join (version.significant.map toString)

instance : ToString FrameworkVersion := ⟨dotted⟩

end FrameworkVersion

/-- A framework that an assembly is made for. -/
structure TargetFramework where
  family : FrameworkFamily
  version : FrameworkVersion
  platform : Option String := none
  deriving Repr, DecidableEq, Hashable, Inhabited

namespace TargetFramework

/-! ## Reading -/

/-- The key says `version`, in letters of either case. -/
def isVersionKey (key : List Char) : Bool :=
  key.map Char.toLower == "version".toList

/-- The version that the parts behind the family give; the last one counts, and all have to be
    versions. -/
def versionAmong? (parts : List (List Char)) : Option FrameworkVersion := do
  let found := parts.filterMap fun part =>
    (Split.atFirst? '=' part).filter fun (key, _) => isVersionKey (Blank.trim key)
  let versions ← found.mapM fun (_, value) => FrameworkVersion.parseDotted? (Blank.trim value)
  versions.getLast?

/-- Reads the long form: a family and a version, with commas between them. -/
def parseFullName? (text : List Char) : Option TargetFramework :=
  match (Split.fields ',' text).map Blank.trim with
  | [] => none
  | family :: parts =>
    if family.isEmpty then none
    else do
      let version ← versionAmong? parts
      some { family := FrameworkFamily.ofFullName family, version }

/-- The family with a given name in the short form. -/
def familyOf? (name : String) (version : FrameworkVersion) : Option FrameworkFamily :=
  match name with
  | "net" => some (if 5 ≤ version.major then .netCoreApp else .netFramework)
  | "netcoreapp" => some .netCoreApp
  | "netstandard" => some .netStandard
  | "netcore" => some .netCore
  | _ =>
    if name.toList.all Char.isAlpha && version.components.any (· != 0) then some (.other name)
    else none

/-- The name and the platform of the short form. A platform is not empty. -/
def splitPlatform? (text : List Char) : Option (List Char × Option String) :=
  match Split.atFirst? '-' text with
  | none => some (text, none)
  | some (name, platform) =>
    if platform.isEmpty then none else some (name, some (String.ofList platform))

/-- A framework of this family and version can have a platform. -/
def admitsPlatform (family : FrameworkFamily) (version : FrameworkVersion) : Bool :=
  family == .netCoreApp && 5 ≤ version.major

/-- Reads the short form: a family, a version and perhaps a platform. -/
def parseShortName? (text : List Char) : Option TargetFramework := do
  let text := text.map Char.toLower
  if text.contains '+' then none
  else
    let (name, platform) ← splitPlatform? text
    let familyName := name.takeWhile fun c => !c.isDigit
    let versionText := name.drop familyName.length
    if familyName.isEmpty then none
    else
      let version ←
        if versionText.contains '.' then FrameworkVersion.parseDotted? versionText
        else FrameworkVersion.parseCompact? versionText
      let family ← familyOf? (String.ofList familyName) version
      if platform.isSome && !admitsPlatform family version then none
      else some { family, version, platform }

/-- Reads a framework in either form. -/
def parse? (text : String) : Option TargetFramework :=
  let text := Blank.trim text.toList
  if text.head? == some '.' || text.contains ',' then parseFullName? text
  else parseShortName? text

/-! ## Writing -/

/-- The family and the version in the short form. -/
def shortStem (framework : TargetFramework) : String :=
  match framework.family with
  | .netFramework => "net" ++ framework.version.compact
  | .netCore => "netcore" ++ framework.version.compact
  | .netCoreApp =>
    (if 5 ≤ framework.version.major then "net" else "netcoreapp") ++ framework.version.dotted
  | .netStandard => "netstandard" ++ framework.version.dotted
  | .other name => name ++ framework.version.dotted

/-- The short form. -/
def shortName (framework : TargetFramework) : String :=
  framework.shortStem ++ framework.platform.elim "" ("-" ++ ·)

instance : ToString TargetFramework := ⟨shortName⟩

/-- The long form, in which the platform is not written. -/
def fullName (framework : TargetFramework) : String :=
  framework.family.fullName ++ ",Version=v" ++ framework.version.dotted

/-- The framework belongs to the newer line and has at least a given version. -/
def isNetCoreAtLeast (framework : TargetFramework) (version : FrameworkVersion) : Bool :=
  (framework.family == .netCoreApp || framework.family == .netCore)
    && (framework.version.order version).isGE

end TargetFramework

end ApiCensus
