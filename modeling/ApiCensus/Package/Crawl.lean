/-
  The census of a package.

  * `Package.crawl`: crawls every assembly of a package and runs every collector on it.
  * `PackageReport`: what the assemblies have in sum, and the files that were skipped.

  An assembly that fails is skipped and contributes nothing.
-/
import ApiCensus.Api.Crawl
import ApiCensus.Feature.Census
import ApiCensus.Package.Basic

namespace ApiCensus

/-- Why a file contributes nothing. -/
inductive SkipReason where
  /-- The file has no bytes. -/
  | empty
  /-- The file is no assembly. -/
  | notAssembly (fault : Fault)
  /-- Reading the file, or what is in it, fails. -/
  | failed (fault : Fault)
  deriving Repr, DecidableEq, Inhabited

/-- The wording of a reason. -/
def SkipReason.message : SkipReason → String
  | .empty => "empty file"
  | .notAssembly (.notAssembly reason) => "not a managed assembly: " ++ reason.message
  | .notAssembly fault => "not a managed assembly: " ++ fault.describe
  | .failed fault => "failed: " ++ fault.describe

/-- A file that contributes nothing. -/
structure SkippedFile where
  path : String
  reason : SkipReason
  deriving Repr, DecidableEq, Inhabited

/-- What one assembly contributes. -/
structure AssemblyReport where
  keys : KeySet
  results : List CollectorResult

/-- What a package has in sum. -/
structure PackageReport where
  identity : PackageIdentity
  /-- The paths of the assemblies that contribute, sorted. -/
  modules : List String := []
  keys : KeySet := {}
  results : List CollectorResult := Collector.all.map Collector.emptyResult
  /-- The files that contribute nothing, sorted by their paths. -/
  skipped : List SkippedFile := []

namespace PackageReport

/-- The facts of two results of one collector. -/
def mergeResult (result other : CollectorResult) : CollectorResult :=
  { result with facts := other.facts.fold Std.HashSet.insert result.facts }

/-- The facts of a collector. -/
def factsOf? (report : PackageReport) (name : String) : Option FactSet :=
  (report.results.find? fun result => result.name == name).map CollectorResult.facts

/-- Takes a file into account. -/
def add (report : PackageReport) (path : String) :
    Except SkipReason AssemblyReport → PackageReport
  | .ok assembly =>
    { report with
      modules := report.modules ++ [path]
      keys := report.keys.union assembly.keys
      results := report.results.zipWith mergeResult assembly.results }
  | .error reason => { report with skipped := report.skipped ++ [{ path, reason }] }

end PackageReport

namespace Package

/-- A file with this path may hold an assembly. -/
def isCandidate (path : String) : Bool :=
  (path.startsWith "lib/" || path.startsWith "runtimes/")
    && (path.endsWith ".dll" || path.endsWith ".exe")

/-- The framework that the folder of a path names: the second of at least three parts. -/
def frameworkOfPath (path : String) : Option TargetFramework :=
  let parts := (Split.fields '/' path.toList).map Blank.trim
  match parts.filter fun part => !part.isEmpty with
  | _ :: framework :: _ :: _ => TargetFramework.parse? (String.ofList framework)
  | _ => none

/-- Why a file that cannot be opened is skipped. -/
def openingReason : Fault → SkipReason
  | .notAssembly reason => .notAssembly (.notAssembly reason)
  | .badImage => .notAssembly .badImage
  | .emptyImage => .notAssembly .emptyImage
  | fault => .failed fault

/-- The assembly in a file of a package. -/
def openFile [HeaderReader] (package : Package) (path : String) : Except SkipReason Assembly :=
  match package.read path with
  | .error fault => .error (.failed fault)
  | .ok data =>
    if data.isEmpty then .error .empty
    else
      match Assembly.ofBytes data with
      | .error fault => .error (openingReason fault)
      | .ok assembly => .ok assembly

variable {σ : Type} (lookup : EnumLookup σ) (limit : Nat)

/-- What an assembly contributes, given the framework that its folder names. The collectors run
    only if the crawl succeeds. -/
def examine (assembly : Assembly) (framework : Option TargetFramework) :
    StateM (Diagnostics × σ) (Except SkipReason AssemblyReport) := fun state =>
  match assembly.crawl lookup.recording limit state with
  | (.error fault, state) => (.error (.failed fault), state)
  | (.ok keys, (diagnostics, memory)) =>
    match Collector.runAll assembly framework Collector.all diagnostics with
    | ((_, some fault), diagnostics) => (.error (.failed fault), (diagnostics, memory))
    | ((results, none), diagnostics) => (.ok { keys, results }, (diagnostics, memory))

/-- What a file of a package contributes. -/
def crawlFile [HeaderReader] (package : Package) (path : String) :
    StateM σ (Except SkipReason AssemblyReport) := fun memory =>
  match package.openFile path with
  | .error reason => (.error reason, memory)
  | .ok assembly =>
    let (result, (_, memory)) := examine lookup limit assembly (frameworkOfPath path) ({}, memory)
    (result, memory)

/-- Takes files into account, one after the other. -/
def crawlFiles [HeaderReader] (package : Package) :
    PackageReport → List String → StateM σ PackageReport
  | report, [] => pure report
  | report, path :: rest => do
    let result ← crawlFile lookup limit package path
    crawlFiles package (report.add path result) rest

/-- What a package has in sum. -/
def crawl [HeaderReader] (package : Package) : Attempt σ PackageReport := do
  let files ← package.files
  ExceptT.lift (crawlFiles lookup limit package { identity := package.identity }
    (files.filter isCandidate).mergeSort)

end Package

end ApiCensus
