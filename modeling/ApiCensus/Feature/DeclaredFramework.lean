/-
  The framework that an assembly is made for.

  * `Assembly.inferFramework`: the framework that the assembly declares, else the one that the
    first telling reference to a core library implies.
  * `Collector.framework`: reports the framework that is known, else the one inferred.
-/
import ApiCensus.Feature.Collector

namespace ApiCensus

/-- The key token of the core library of the oldest line of frameworks. -/
def coreKeyToken : List UInt8 :=
  [0xB7, 0x7A, 0x5C, 0x56, 0x19, 0x34, 0xE0, 0x89]

/-- The texts are equal up to the case of ASCII letters. -/
def sameName (a b : String) : Bool :=
  a.map Char.toLower == b.map Char.toLower

/-- The framework with a given version of the runtime library. -/
def runtimeFramework? (version : AssemblyVersion) : Option String :=
  if 5 ≤ version.major then some s!"netcoreapp{version.major}.{version.minor}"
  else
    match version.major, version.minor, version.build with
    | 4, 1, _ => some "netcoreapp1.0"
    | 4, 2, 1 => some "netcoreapp2.1"
    | 4, 2, 2 => some "netcoreapp3.1"
    | 4, 2, _ => some "netcoreapp2.0"
    | 4, 0, 10 => some "netstandard1.2"
    | 4, 0, 20 => some "netstandard1.3"
    | 4, 0, _ => some "netstandard1.0"
    | _, _, _ => none

/-- The framework with a given version of the oldest core library. -/
def coreFramework? (version : AssemblyVersion) : Option String :=
  match version.major, version.minor, version.build with
  | 1, 0, 3300 => some "net1.0"
  | 1, 0, 5000 => some "net2.0"
  | 2, _, _ => some "net2.0"
  | 4, _, _ => some "net4.0"
  | _, _, _ => none

namespace Assembly

variable (assembly : Assembly)

/-- The short name of the framework that a reference to a core library implies. -/
def frameworkOfReference (row : AssemblyRefRow) : Except Fault (Option String) := do
  let name ← assembly.text row.name
  let version := row.version
  match if sameName name "System.Runtime" then runtimeFramework? version else none with
  | some framework => pure (some framework)
  | none =>
    if sameName name "netstandard" then
      pure (some s!"netstandard{version.major}.{version.minor}")
    else if !row.hasFullPublicKey && sameName name "mscorlib" then
      let key ← assembly.blob row.publicKeyOrToken
      pure (if key.data.toList = coreKeyToken then coreFramework? version else none)
    else
      pure none

/-- The framework that the first telling reference among the given ones implies. -/
def frameworkAmong : List (Except Fault AssemblyRefRow) → Except Fault (Option TargetFramework)
  | [] => pure none
  | row :: rest => do
    match ← assembly.frameworkOfReference (← row) with
    | some shortName => pure (TargetFramework.parse? shortName)
    | none => frameworkAmong rest

/-- The framework that an assembly declares, else the one that its references imply. -/
def inferFramework : Except Fault (Option TargetFramework) := do
  match (← assembly.frameworkMoniker).filter fun moniker => !moniker.isEmpty with
  | some moniker => pure (TargetFramework.parse? moniker)
  | none => assembly.frameworkAmong (assembly.table AssemblyRefRow).rows

end Assembly

/-- Looks for the framework. -/
def Collector.framework : Collector where
  name := "TargetFramework"
  version := 5
  collect assembly known := do
    let found ←
      match known with
      | some framework => pure (some framework)
      | none => assembly.inferFramework
    match found with
    | some framework => Collecting.report (.targets framework)
    | none => pure ()

end ApiCensus
