/-
  What the census of a package is made of.

  * `Package.outcome`: what a file gives, however often and whenever it is looked at.
  * `Package.Contributes`: every step succeeds on a file, from its bytes to the last collector.
  * `Package.crawlFiles_eq`: files are crawled as if each one was crawled alone.
  * `PackageReport.Accounts`: the report names every file once for each time it is listed, and has
    the keys and the facts of the files that contribute and of no other.
  * `Package.crawl_accounts`: the census is such a report. Neither the order in which files are
    listed nor the bytes of files that are skipped make a difference.
-/
import ApiCensus.Draft.Image
import ApiCensus.Image.Headers
import ApiCensus.Package.Crawl
import ApiCensus.Proofs.Api.Crawl
import Mathlib.Data.List.Forall2

namespace ApiCensus

open Attempt

/-! ## Sets -/

theorem KeySet.mem_foldl_insert {keys : KeySet} {more : List ApiKey} {key : ApiKey} :
    key ∈ more.foldl KeySet.insert keys ↔ key ∈ keys ∨ key ∈ more := by
  induction more generalizing keys with
  | nil => simp
  | cons first more ih =>
    rw [List.foldl_cons, ih, KeySet.mem_insert, List.mem_cons]
    tauto

theorem KeySet.mem_toList {keys : KeySet} {key : ApiKey} : key ∈ keys.toList ↔ key ∈ keys := by
  show key ∈ keys.ids.toList.map ApiKey.mk ↔ keys.ids.contains key.id = true
  rw [Std.TreeSet.contains_iff_mem, ← Std.TreeSet.mem_toList, List.mem_map]
  constructor
  · rintro ⟨id, hid, rfl⟩
    exact hid
  · intro hid
    exact ⟨key.id, hid, rfl⟩

@[simp] theorem KeySet.mem_union {keys others : KeySet} {key : ApiKey} :
    key ∈ keys.union others ↔ key ∈ keys ∨ key ∈ others := by
  rw [KeySet.union, KeySet.mem_foldl_insert, KeySet.mem_toList]

theorem FactSet.mem_foldl_insert {facts : FactSet} {more : List Fact} {fact : Fact} :
    fact ∈ more.foldl Std.HashSet.insert facts ↔ fact ∈ facts ∨ fact ∈ more := by
  induction more generalizing facts with
  | nil => simp
  | cons first more ih =>
    rw [List.foldl_cons, ih, Std.HashSet.mem_insert, List.mem_cons, beq_iff_eq]
    tauto

namespace PackageReport

@[simp] theorem mem_mergeResult {result other : CollectorResult} {fact : Fact} :
    fact ∈ (mergeResult result other).facts ↔ fact ∈ result.facts ∨ fact ∈ other.facts := by
  rw [mergeResult, Std.HashSet.fold_eq_foldl_toList, FactSet.mem_foldl_insert,
    Std.HashSet.mem_toList]

end PackageReport

/-! ## Collectors -/

/-- The name and the version of a collector and all facts that it finds in an assembly. -/
def Collector.Finds (assembly : Assembly) (framework : Option TargetFramework)
    (collector : Collector) (result : CollectorResult) : Prop :=
  result.name = collector.name ∧ result.version = collector.version ∧
    ∃ diagnostics diagnostics', collector.collect assembly framework (diagnostics, ∅) =
      (.ok (), (diagnostics', result.facts))

/-- Without a fault every collector has run to its end. -/
theorem Collector.runAll_eq_ok {assembly : Assembly} {framework : Option TargetFramework}
    {collectors : List Collector} {results : List CollectorResult}
    {diagnostics diagnostics' : Diagnostics}
    (h : runAll assembly framework collectors diagnostics = ((results, none), diagnostics')) :
    List.Forall₂ (Finds assembly framework) collectors results := by
  induction collectors generalizing results diagnostics diagnostics' with
  | nil =>
    obtain rfl : results = [] := (congrArg (fun run => run.1.1) h).symm
    exact .nil
  | cons collector collectors ih =>
    rcases hrun : collector.collect assembly framework (diagnostics, ∅) with
      ⟨fault | ⟨⟩, between, facts⟩
    · have hone : collector.run assembly framework diagnostics =
          (({ collector.emptyResult with facts }, some fault), between) := by
        unfold run
        rw [hrun]
      simp only [runAll, bind, StateT.bind, hone] at h
      cases congrArg (fun run => run.1.2) h
    · have hone : collector.run assembly framework diagnostics =
          (({ collector.emptyResult with facts }, none), between) := by
        unfold run
        rw [hrun]
      rcases hrest : runAll assembly framework collectors between with ⟨⟨others, end?⟩, after⟩
      simp only [runAll, bind, StateT.bind, hone, hrest] at h
      obtain ⟨hall, -⟩ := Prod.mk.inj h
      obtain ⟨rfl, rfl⟩ := Prod.mk.inj hall
      exact .cons ⟨rfl, rfl, diagnostics, between, hrun⟩ (ih hrest)

/-! ## What one file gives -/

namespace Package

variable [HeaderReader] (lookup : EnumLookup Unit) (limit : Nat)

/-- What a file of a package gives. -/
def outcome (package : Package) (path : String) : Except SkipReason AssemblyReport :=
  (crawlFile lookup limit package path ()).1

/-- Every step succeeds: the file can be read and holds an assembly, the crawl ends well, and all
    collectors do. -/
inductive Contributes (package : Package) (path : String) : AssemblyReport → Prop
  | intro {data : ByteArray} {assembly : Assembly} {keys : KeySet}
      {results : List CollectorResult} {diagnostics diagnostics' : Diagnostics}
      (read : package.read path = .ok data) (notEmpty : data.isEmpty = false)
      (opened : Assembly.ofBytes data = .ok assembly)
      (crawled : assembly.crawl lookup.recording limit ({}, ()) = (.ok keys, (diagnostics, ())))
      (collected : Collector.runAll assembly (frameworkOfPath path) Collector.all diagnostics =
        ((results, none), diagnostics')) :
      Contributes package path { keys, results }

variable {lookup limit} {package other : Package} {path : String}

theorem openFile_eq_ok {assembly : Assembly} : package.openFile path = .ok assembly ↔
    ∃ data, package.read path = .ok data ∧ data.isEmpty = false ∧
      Assembly.ofBytes data = .ok assembly := by
  unfold openFile
  rcases package.read path with fault | data
  · simp
  · by_cases hempty : data.isEmpty = true
    · simp [hempty]
    · rcases hopen : Assembly.ofBytes data with fault | opened
      · simp [hempty, hopen]
      · simp [hempty, hopen]

theorem outcome_eq_ok {report : AssemblyReport} :
    outcome lookup limit package path = .ok report ↔
      Contributes lookup limit package path report := by
  unfold outcome crawlFile
  constructor
  · intro h
    rcases hopen : package.openFile path with reason | assembly
    · rw [hopen] at h
      cases h
    · rw [hopen] at h
      obtain ⟨data, hread, hempty, hopened⟩ := openFile_eq_ok.1 hopen
      simp only [examine] at h
      rcases hcrawl : assembly.crawl lookup.recording limit ({}, ()) with
        ⟨fault | keys, diagnostics, ⟨⟩⟩
      · rw [hcrawl] at h
        cases h
      · rw [hcrawl] at h
        dsimp only at h
        rcases hcollect : Collector.runAll assembly (frameworkOfPath path) Collector.all diagnostics
          with ⟨⟨results, fault | fault⟩, diagnostics'⟩
        · rw [hcollect] at h
          cases h
          exact .intro hread hempty hopened hcrawl hcollect
        · rw [hcollect] at h
          cases h
  · rintro ⟨hread, hempty, hopened, hcrawl, hcollect⟩
    have hopen := openFile_eq_ok.2 ⟨_, hread, hempty, hopened⟩
    simp only [hopen, examine, hcrawl, hcollect]

/-- What a file gives depends on its path and on its bytes. -/
theorem outcome_congr (h : other.read path = package.read path) :
    outcome lookup limit other path = outcome lookup limit package path := by
  unfold outcome crawlFile openFile
  rw [h]

theorem length_results {report : AssemblyReport}
    (h : Contributes lookup limit package path report) :
    report.results.length = Collector.all.length := by
  obtain ⟨-, -, -, -, hcollect⟩ := h
  exact (Collector.runAll_eq_ok hcollect).length_eq.symm

/-- **Files that are crawled one after the other are taken into account as if each one had been
    crawled alone.** -/
theorem crawlFiles_eq (report : PackageReport) (paths : List String) :
    crawlFiles lookup limit package report paths () =
      (paths.foldl (fun report path => report.add path (outcome lookup limit package path)) report,
        ()) := by
  induction paths generalizing report with
  | nil => rfl
  | cons path paths ih =>
    rw [List.foldl_cons, ← ih]
    rfl

end Package

/-! ## Files that are taken into account -/

namespace PackageReport

variable (outcome : String → Except SkipReason AssemblyReport)

/-- The files that contribute, with what they contribute. -/
def contributions (paths : List String) : List (String × AssemblyReport) :=
  paths.filterMap fun path => (outcome path).toOption.map fun assembly => (path, assembly)

/-- The files that contribute nothing. -/
def failures (paths : List String) : List SkippedFile :=
  paths.filterMap fun path =>
    match outcome path with
    | .ok _ => none
    | .error reason => some { path, reason }

/-- The report with all contributions. -/
def withAll (report : PackageReport) (paths : List String) : PackageReport :=
  let found := contributions outcome paths
  { report with
    modules := report.modules ++ found.map Prod.fst
    keys := found.foldl (fun keys one => keys.union one.2.keys) report.keys
    results := found.foldl (fun results one => results.zipWith mergeResult one.2.results)
      report.results
    skipped := report.skipped ++ failures outcome paths }

theorem foldl_add (report : PackageReport) (paths : List String) :
    paths.foldl (fun report path => report.add path (outcome path)) report =
      report.withAll outcome paths := by
  induction paths generalizing report with
  | nil => simp [withAll, contributions, failures]
  | cons path paths ih =>
    rw [List.foldl_cons, ih]
    rcases hone : outcome path with reason | assembly
    · simp [withAll, contributions, failures, add, hone, Except.toOption]
    · simp [withAll, contributions, failures, add, hone, Except.toOption]

variable {outcome} {paths : List String}

theorem mem_contributions {path : String} {assembly : AssemblyReport} :
    (path, assembly) ∈ contributions outcome paths ↔
      path ∈ paths ∧ outcome path = .ok assembly := by
  simp only [contributions, List.mem_filterMap, Option.map_eq_some_iff, Prod.mk.injEq]
  constructor
  · rintro ⟨_, hmem, _, hone, rfl, rfl⟩
    refine ⟨hmem, ?_⟩
    rcases houtcome : outcome _ with reason | found
    · simp [houtcome, Except.toOption] at hone
    · simpa [houtcome, Except.toOption] using hone
  · rintro ⟨hmem, hone⟩
    exact ⟨path, hmem, assembly, by simp [hone, Except.toOption], rfl, rfl⟩

/-- Files that are skipped either way make no difference to what contributes. -/
theorem contributions_congr {outcome' : String → Except SkipReason AssemblyReport}
    (h : ∀ path ∈ paths, outcome' path = outcome path ∨
      (outcome' path).isOk = false ∧ (outcome path).isOk = false) :
    contributions outcome' paths = contributions outcome paths := by
  refine List.filterMap_congr fun path hpath => ?_
  rcases h path hpath with hsame | ⟨hone, hother⟩
  · rw [hsame]
  · rcases hfirst : outcome' path with reason | assembly
    · rcases hsecond : outcome path with reason | assembly
      · rfl
      · rw [hsecond] at hother
        cases hother
    · rw [hfirst] at hone
      cases hone

theorem mem_failures {file : SkippedFile} :
    file ∈ failures outcome paths ↔
      file.path ∈ paths ∧ outcome file.path = .error file.reason := by
  simp only [failures, List.mem_filterMap]
  constructor
  · rintro ⟨path, hmem, hone⟩
    rcases houtcome : outcome path with reason | assembly
    · rw [houtcome] at hone
      obtain rfl := Option.some.inj hone
      exact ⟨hmem, houtcome⟩
    · simp [houtcome] at hone
  · rintro ⟨hmem, hone⟩
    exact ⟨file.path, hmem, by rw [hone]⟩

/-- The paths of the files that contribute. -/
theorem paths_contributions : (contributions outcome paths).map Prod.fst =
    paths.filter fun path => (outcome path).isOk := by
  induction paths with
  | nil => rfl
  | cons path paths ih =>
    rcases hone : outcome path with reason | assembly
    · simpa [contributions, hone, Except.toOption, Except.isOk, Except.toBool] using ih
    · simpa [contributions, hone, Except.toOption, Except.isOk, Except.toBool] using ih

/-- The paths of the files that contribute nothing. -/
theorem paths_failures : (failures outcome paths).map SkippedFile.path =
    paths.filter fun path => !(outcome path).isOk := by
  induction paths with
  | nil => rfl
  | cons path paths ih =>
    rcases hone : outcome path with reason | assembly
    · simpa [failures, hone, Except.isOk, Except.toBool] using ih
    · simpa [failures, hone, Except.isOk, Except.toBool] using ih

theorem mem_foldl_union {keys : KeySet} {found : List (String × AssemblyReport)} {key : ApiKey} :
    key ∈ found.foldl (fun keys one => keys.union one.2.keys) keys ↔
      key ∈ keys ∨ ∃ one ∈ found, key ∈ one.2.keys := by
  induction found generalizing keys with
  | nil => simp
  | cons one found ih =>
    rw [List.foldl_cons, ih, KeySet.mem_union, List.exists_mem_cons_iff, or_assoc]

/-- The results of one collector after those of some files were added to it. -/
theorem foldl_zipWith {results : List CollectorResult} {found : List (String × AssemblyReport)}
    {index : Nat} {merged : CollectorResult}
    (h : (found.foldl (fun results one => results.zipWith mergeResult one.2.results) results)[index]?
      = some merged) :
    ∃ result, results[index]? = some result ∧ merged.name = result.name ∧
      merged.version = result.version ∧
      ∀ fact, fact ∈ merged.facts ↔ fact ∈ result.facts ∨
        ∃ one ∈ found, ∃ more, one.2.results[index]? = some more ∧ fact ∈ more.facts := by
  induction found generalizing results with
  | nil => exact ⟨merged, h, rfl, rfl, by simp⟩
  | cons one found ih =>
    obtain ⟨between, hbetween, hname, hversion, hfacts⟩ := ih h
    obtain ⟨result, more, hresult, hmore, rfl⟩ := List.getElem?_zipWith_eq_some.1 hbetween
    refine ⟨result, hresult, hname, hversion, fun fact => ?_⟩
    rw [hfacts, mem_mergeResult, or_assoc, List.exists_mem_cons_iff]
    simp only [hmore, Option.some.injEq, exists_eq_left']

theorem length_foldl_zipWith {results : List CollectorResult}
    {found : List (String × AssemblyReport)}
    (h : ∀ one ∈ found, one.2.results.length = results.length) :
    (found.foldl (fun results one => results.zipWith mergeResult one.2.results) results).length =
      results.length := by
  induction found generalizing results with
  | nil => rfl
  | cons one found ih =>
    have hone : (results.zipWith mergeResult one.2.results).length = results.length := by
      rw [List.length_zipWith, h one List.mem_cons_self, Nat.min_self]
    rw [List.foldl_cons, ih, hone]
    intro other hother
    rw [hone, h other (List.mem_cons_of_mem one hother)]

end PackageReport

/-! ## Reports -/

/-- What a report says about files, given what each of them gives. -/
structure PackageReport.Accounts (outcome : String → Except SkipReason AssemblyReport)
    (files : List String) (report : PackageReport) : Prop where
  modules_sorted : report.modules.Pairwise (· ≤ ·)
  skipped_sorted : (report.skipped.map SkippedFile.path).Pairwise (· ≤ ·)
  /-- A candidate is named as often as it is listed, and nothing else is named. -/
  count_add_count : ∀ path,
    report.modules.count path + (report.skipped.map SkippedFile.path).count path =
      if Package.isCandidate path then files.count path else 0
  mem_modules : ∀ path, path ∈ report.modules ↔
    path ∈ files ∧ Package.isCandidate path = true ∧ ∃ assembly, outcome path = .ok assembly
  mem_skipped : ∀ file, file ∈ report.skipped ↔ file.path ∈ files ∧
    Package.isCandidate file.path = true ∧ outcome file.path = .error file.reason
  mem_keys : ∀ key, key ∈ report.keys ↔
    ∃ path ∈ report.modules, ∃ assembly, outcome path = .ok assembly ∧ key ∈ assembly.keys
  collectors : List.Forall₂
    (fun collector result => result.name = collector.name ∧ result.version = collector.version)
    Collector.all report.results
  /-- A collector has the facts that it has found in some module. -/
  mem_facts : ∀ (index : Nat) (result : CollectorResult), report.results[index]? = some result →
    ∀ fact, fact ∈ result.facts ↔ ∃ path ∈ report.modules, ∃ assembly found,
      outcome path = .ok assembly ∧ assembly.results[index]? = some found ∧ fact ∈ found.facts

namespace Package

/-- The files that are crawled, sorted. -/
def candidates (files : List String) : List String :=
  (files.filter isCandidate).mergeSort

theorem candidates_sorted (files : List String) : (candidates files).Pairwise (· ≤ ·) := by
  have htrans : ∀ a b c : String,
      decide (a ≤ b) = true → decide (b ≤ c) = true → decide (a ≤ c) = true := by
    intro a b c hab hbc
    exact decide_eq_true (String.le_trans (of_decide_eq_true hab) (of_decide_eq_true hbc))
  have htotal : ∀ a b : String, (decide (a ≤ b) || decide (b ≤ a)) = true := by
    intro a b
    simpa using String.le_total a b
  exact (List.pairwise_mergeSort htrans htotal (files.filter isCandidate)).imp of_decide_eq_true

theorem mem_candidates {files : List String} {path : String} :
    path ∈ candidates files ↔ path ∈ files ∧ isCandidate path = true := by
  rw [candidates, List.mem_mergeSort, List.mem_filter]

theorem count_candidates (files : List String) (path : String) :
    (candidates files).count path = if isCandidate path then files.count path else 0 := by
  rw [candidates, (List.mergeSort_perm _ _).count_eq]
  split
  · exact List.count_filter ‹_›
  · refine List.count_eq_zero.2 fun hmem => ?_
    exact absurd (List.mem_filter.1 hmem).2 ‹_›

/-- The order in which files are listed makes no difference. -/
theorem candidates_perm {files files' : List String} (h : files'.Perm files) :
    candidates files' = candidates files := by
  have hperm : (candidates files').Perm (candidates files) :=
    (List.mergeSort_perm _ _).trans ((h.filter _).trans (List.mergeSort_perm _ _).symm)
  exact hperm.eq_of_pairwise (fun _ _ _ _ => String.le_antisymm) (candidates_sorted files')
    (candidates_sorted files)

end Package

namespace PackageReport

variable {outcome : String → Except SkipReason AssemblyReport} {identity : PackageIdentity}
  {paths : List String}

/-- The modules are the files that contribute. -/
theorem mem_modules_withAll {path : String} :
    path ∈ (withAll outcome { identity } paths).modules ↔
      path ∈ paths ∧ ∃ assembly, outcome path = .ok assembly := by
  show path ∈ (contributions outcome paths).map Prod.fst ↔ _
  rw [List.mem_map]
  constructor
  · rintro ⟨⟨path, assembly⟩, hone, rfl⟩
    obtain ⟨hpath, hok⟩ := mem_contributions.1 hone
    exact ⟨hpath, assembly, hok⟩
  · rintro ⟨hpath, assembly, hok⟩
    exact ⟨(path, assembly), mem_contributions.2 ⟨hpath, hok⟩, rfl⟩

/-- What holds of a contribution holds of a module and what it gives. -/
theorem exists_mem_contributions (P : AssemblyReport → Prop) :
    (∃ one ∈ contributions outcome paths, P one.2) ↔
      ∃ path ∈ (withAll outcome { identity } paths).modules, ∃ assembly,
        outcome path = .ok assembly ∧ P assembly := by
  constructor
  · rintro ⟨⟨path, assembly⟩, hone, hholds⟩
    obtain ⟨hpath, hok⟩ := mem_contributions.1 hone
    exact ⟨path, mem_modules_withAll.2 ⟨hpath, assembly, hok⟩, assembly, hok, hholds⟩
  · rintro ⟨path, hpath, assembly, hok, hholds⟩
    have hlisted := (mem_modules_withAll.1 hpath).1
    exact ⟨(path, assembly), mem_contributions.2 ⟨hlisted, hok⟩, hholds⟩

theorem mem_keys_withAll {key : ApiKey} :
    key ∈ (withAll outcome { identity } paths).keys ↔
      ∃ path ∈ (withAll outcome { identity } paths).modules, ∃ assembly,
        outcome path = .ok assembly ∧ key ∈ assembly.keys := by
  show key ∈ (contributions outcome paths).foldl _ ({} : KeySet) ↔ _
  rw [mem_foldl_union, or_iff_right (KeySet.not_mem_empty key)]
  exact exists_mem_contributions fun assembly => key ∈ assembly.keys

theorem mem_facts_withAll {index : Nat} {result : CollectorResult} {fact : Fact}
    (hresult : (withAll outcome { identity } paths).results[index]? = some result) :
    fact ∈ result.facts ↔ ∃ path ∈ (withAll outcome { identity } paths).modules,
      ∃ assembly, outcome path = .ok assembly ∧
        ∃ found, assembly.results[index]? = some found ∧ fact ∈ found.facts := by
  obtain ⟨start, hstart, -, -, hfacts⟩ := foldl_zipWith hresult
  have hnone : fact ∉ start.facts := by
    obtain ⟨collector, -, rfl⟩ := List.mem_map.1 (List.mem_of_getElem? hstart)
    exact Std.HashSet.not_mem_empty
  rw [hfacts, or_iff_right hnone]
  exact exists_mem_contributions fun assembly =>
    ∃ found, assembly.results[index]? = some found ∧ fact ∈ found.facts

theorem collectors_withAll
    (hlength : ∀ path assembly, outcome path = .ok assembly →
      assembly.results.length = Collector.all.length) :
    List.Forall₂
      (fun collector result => result.name = collector.name ∧ result.version = collector.version)
      Collector.all (withAll outcome { identity } paths).results := by
  have hlengths : ∀ one ∈ contributions outcome paths,
      one.2.results.length = (Collector.all.map Collector.emptyResult).length := by
    rintro ⟨path, assembly⟩ hone
    rw [List.length_map]
    exact hlength path assembly (mem_contributions.1 hone).2
  have hcount := length_foldl_zipWith hlengths
  refine List.forall₂_iff_get.2 ⟨?_, ?_⟩
  · rw [withAll, hcount, List.length_map]
  · intro index hcollector hresult
    obtain ⟨start, hstart, hname, hversion, -⟩ :=
      foldl_zipWith (List.getElem?_eq_getElem hresult)
    rw [List.getElem?_map, List.getElem?_eq_getElem hcollector] at hstart
    obtain rfl := Option.some.inj hstart
    exact ⟨hname, hversion⟩

/-- The report of the sorted candidates accounts for all files. -/
theorem withAll_accounts (identity : PackageIdentity) (files : List String)
    (hlength : ∀ path assembly, outcome path = .ok assembly →
      assembly.results.length = Collector.all.length) :
    (withAll outcome { identity } (Package.candidates files)).Accounts outcome files := by
  have hmodules : (withAll outcome { identity } (Package.candidates files)).modules =
      (Package.candidates files).filter fun path => (outcome path).isOk := paths_contributions
  have hskipped : (withAll outcome { identity } (Package.candidates files)).skipped =
      failures outcome (Package.candidates files) := rfl
  have hsorted := Package.candidates_sorted files
  refine ⟨?_, ?_, ?_, ?_, ?_, fun key => mem_keys_withAll, collectors_withAll hlength, ?_⟩
  · rw [hmodules]
    exact hsorted.filter _
  · rw [hskipped, paths_failures]
    exact hsorted.filter _
  · intro path
    rw [hmodules, hskipped, paths_failures, ← Package.count_candidates]
    have hsplit := List.filter_append_perm (fun path => (outcome path).isOk)
      (Package.candidates files)
    rw [← List.count_append]
    exact hsplit.count_eq path
  · intro path
    rw [mem_modules_withAll, Package.mem_candidates, and_assoc]
  · intro file
    rw [hskipped, mem_failures, Package.mem_candidates, and_assoc]
  · intro index result hresult fact
    simp only [mem_facts_withAll hresult, exists_and_left]

end PackageReport

/-! ## The census -/

namespace Package

variable {lookup : EnumLookup Unit} {limit : Nat} {package : Package} {files : List String}

theorem crawl_eq [HeaderReader] (hfiles : package.files = .ok files) :
    crawl lookup limit package () =
      (.ok (PackageReport.withAll (outcome lookup limit package) { identity := package.identity }
        (candidates files)), ()) := by
  have hrun : crawlFiles lookup limit package _ _ () = _ :=
    crawlFiles_eq { identity := package.identity } (candidates files)
  rw [PackageReport.foldl_add] at hrun
  have hlift : ∀ run : StateM Unit PackageReport,
      (ExceptT.lift run : Attempt Unit PackageReport) () = (.ok (run ()).1, ()) := fun _ => rfl
  rw [crawl, hfiles]
  show (ExceptT.lift (crawlFiles lookup limit package { identity := package.identity }
    (candidates files)) : Attempt Unit PackageReport) () = _
  rw [hlift, hrun]

/-- A candidate is skipped just if some step fails on it, be it the last one. -/
theorem mem_modules_iff [HeaderReader] {report : PackageReport}
    (h : report.Accounts (outcome lookup limit package) files) {path : String} (hpath : path ∈ files)
    (hcandidate : isCandidate path = true) :
    (path ∈ report.modules ↔ ∃ assembly, Contributes lookup limit package path assembly) ∧
      (path ∈ report.skipped.map SkippedFile.path ↔
        ¬ ∃ assembly, Contributes lookup limit package path assembly) := by
  have hmodules : path ∈ report.modules ↔
      ∃ assembly, Contributes lookup limit package path assembly := by
    simp only [h.mem_modules, hpath, hcandidate, true_and, outcome_eq_ok]
  refine ⟨hmodules, ?_⟩
  simp only [List.mem_map, ← outcome_eq_ok]
  constructor
  · rintro ⟨file, hfile, rfl⟩ ⟨assembly, hone⟩
    obtain ⟨-, -, hfails⟩ := (h.mem_skipped file).1 hfile
    rw [hfails] at hone
    cases hone
  · intro hnone
    rcases hone : outcome lookup limit package path with reason | assembly
    · exact ⟨⟨path, reason⟩, (h.mem_skipped _).2 ⟨hpath, hcandidate, hone⟩, rfl⟩
    · exact absurd ⟨assembly, hone⟩ hnone

/-- **A package whose files can be listed has a census. It names every candidate as often as it is
    listed, as a module if all steps succeed on it and else as skipped, and it has the keys and the
    facts of the modules and no others: of a file on which one step fails nothing is left, whatever
    the steps before had found. Neither the order of the files nor what skipped files hold makes a
    difference.** -/
theorem crawl_accounts [HeaderReader] (hfiles : package.files = .ok files) :
    ∃ report, crawl lookup limit package () = (.ok report, ()) ∧
      report.identity = package.identity ∧
      report.Accounts (outcome lookup limit package) files ∧
      (∀ path assembly, outcome lookup limit package path = .ok assembly ↔
        Contributes lookup limit package path assembly) ∧
      (∀ path ∈ files, isCandidate path = true →
        (path ∈ report.modules ↔ ∃ assembly, Contributes lookup limit package path assembly) ∧
        (path ∈ report.skipped.map SkippedFile.path ↔
          ¬ ∃ assembly, Contributes lookup limit package path assembly)) ∧
      (∀ path assembly, Contributes lookup limit package path assembly →
        ∃ data opened, package.read path = .ok data ∧ Assembly.ofBytes data = .ok opened ∧
          List.Forall₂ (Collector.Finds opened (frameworkOfPath path)) Collector.all
            assembly.results) ∧
      (∀ files', files'.Perm files →
        crawl lookup limit { package with files := .ok files' } () = (.ok report, ())) ∧
      ∀ read : String → Except Fault ByteArray,
        (∀ path ∈ files, isCandidate path = true → read path = package.read path ∨
          (outcome lookup limit package path).isOk = false ∧
            (outcome lookup limit { package with read } path).isOk = false) →
        ∃ report', crawl lookup limit { package with read } () = (.ok report', ()) ∧
          report'.modules = report.modules ∧ report'.keys = report.keys ∧
          report'.results = report.results := by
  have haccounts := PackageReport.withAll_accounts package.identity files
    fun path assembly (hone : outcome lookup limit package path = .ok assembly) =>
      length_results (outcome_eq_ok.1 hone)
  refine ⟨_, crawl_eq hfiles, rfl, haccounts, fun _ _ => outcome_eq_ok, ?_, ?_, ?_, ?_⟩
  · intro path hpath hcandidate
    exact mem_modules_iff haccounts hpath hcandidate
  · rintro path _ ⟨hread, -, hopened, -, hcollect⟩
    exact ⟨_, _, hread, hopened, Collector.runAll_eq_ok hcollect⟩
  · intro files' hperm
    have hsame : outcome lookup limit { package with files := .ok files' } =
        outcome lookup limit package := funext fun path => outcome_congr rfl
    have hcrawl : crawl lookup limit { package with files := .ok files' } () = _ := crawl_eq rfl
    rw [hcrawl, hsame, candidates_perm hperm]
  · intro read hread
    have hcrawl : crawl lookup limit { package with read } () = _ := crawl_eq hfiles
    have hsame : PackageReport.contributions (outcome lookup limit { package with read })
          (candidates files) =
        PackageReport.contributions (outcome lookup limit package) (candidates files) := by
      refine PackageReport.contributions_congr fun path hpath => ?_
      obtain ⟨hpath, hcandidate⟩ := mem_candidates.1 hpath
      rcases hread path hpath hcandidate with hbytes | ⟨hone, hother⟩
      · exact Or.inl (outcome_congr hbytes)
      · exact Or.inr ⟨hother, hone⟩
    refine ⟨_, hcrawl, ?_⟩
    simp only [PackageReport.withAll, hsame, and_self]

/-- A package with an assembly, a file that cannot be read, which is listed twice, and a file that
    is no candidate. -/
def mixed : Package :=
  .ofList { id := "Mixed", version := "1.0" }
    [("lib/b.dll", .error (.reported "broken")),
     ("lib/a.dll", .ok (ModuleDraft.start "A" true).image), ("readme.md", .ok .empty),
     ("lib/b.dll", .error (.reported "broken"))]

theorem crawl_accounts_mixed :
    mixed.files = .ok ["lib/b.dll", "lib/a.dll", "readme.md", "lib/b.dll"] ∧
      ∃ report, crawl (EnumLookup.none (σ := Unit)) 100 mixed () = (.ok report, ()) ∧
        ⟨"lib/b.dll", .failed (.reported "broken")⟩ ∈ report.skipped ∧
        report.modules.count "lib/b.dll" +
          (report.skipped.map SkippedFile.path).count "lib/b.dll" = 2 ∧
        report.modules.count "readme.md" +
          (report.skipped.map SkippedFile.path).count "readme.md" = 0 := by
  have hfiles : mixed.files = .ok ["lib/b.dll", "lib/a.dll", "readme.md", "lib/b.dll"] := rfl
  obtain ⟨report, hcrawl, -, haccounts, -⟩ :
      ∃ report, crawl (EnumLookup.none (σ := Unit)) 100 mixed () = (.ok report, ()) ∧ _ :=
    crawl_accounts hfiles
  have hread : mixed.read "lib/b.dll" = .error (.reported "broken") := rfl
  refine ⟨hfiles, report, hcrawl, ?_, ?_, ?_⟩
  · refine (haccounts.mem_skipped _).2 ⟨by simp, by decide +kernel, ?_⟩
    simp only [outcome, crawlFile, openFile, hread]
  · rw [haccounts.count_add_count]
    decide +kernel
  · rw [haccounts.count_add_count]
    decide +kernel

end Package

end ApiCensus
