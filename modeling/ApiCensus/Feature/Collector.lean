/-
  Collectors: each one looks for one kind of fact in an assembly.

  * `Collector`: a collector with its name and the version of what it looks for.
  * `Collector.run`, `Collector.runAll`: the facts that collectors find.
  * `Collecting.report`: how a collector adds a fact.

  A collector that fails keeps the facts that it has found so far.
-/
import ApiCensus.Assembly.Members
import ApiCensus.Assembly.Naming
import ApiCensus.Feature.Fact

namespace ApiCensus

/-- Looking for facts: what is noticed beside, and the facts found so far. -/
abbrev Collecting := Attempt (Diagnostics × FactSet)

namespace Collecting

/-- Adds a fact. -/
def report (fact : Fact) : Collecting Unit :=
  modify fun (diagnostics, facts) => (diagnostics, facts.insert fact)

/-- Adds the fact about an API, if there is one. -/
def reportSome (fact : ApiKey → Fact) (id : Option String) : Collecting Unit :=
  match id with
  | some id => report (fact ⟨id⟩)
  | none => pure ()

/-- Adds a fact if some element of a list has a property; the elements behind it are not
    looked at. -/
def reportIfAny {α : Type} (fact : Fact) (xs : List α) (p : α → Except Fault Bool) :
    Collecting Unit := do
  let found ← (xs.anyM p : Except Fault Bool)
  if found then report fact

/-- A step that only notices things. -/
def noticing {α : Type} (step : StateM Diagnostics α) : Collecting α :=
  fun (diagnostics, facts) =>
    let (result, diagnostics) := step diagnostics
    (.ok result, (diagnostics, facts))

end Collecting

/-- A collector. -/
structure Collector where
  name : String
  /-- The version of what it looks for: facts of different versions do not compare. -/
  version : Nat
  /-- Looks for facts in an assembly that is made for a framework, as far as that is known. -/
  collect (assembly : Assembly) (framework : Option TargetFramework) : Collecting Unit

/-- The facts that a collector has found. -/
structure CollectorResult where
  name : String
  version : Nat
  facts : FactSet := ∅

namespace Collector

/-- The result before anything is looked at. -/
def emptyResult (collector : Collector) : CollectorResult :=
  { name := collector.name, version := collector.version }

/-- The facts that a collector finds, and whether it fails. -/
def run (collector : Collector) (assembly : Assembly) (framework : Option TargetFramework) :
    StateM Diagnostics (CollectorResult × Option Fault) := fun diagnostics =>
  match collector.collect assembly framework (diagnostics, ∅) with
  | (.ok (), (diagnostics, facts)) =>
    (({ collector.emptyResult with facts }, none), diagnostics)
  | (.error fault, (diagnostics, facts)) =>
    (({ collector.emptyResult with facts }, some fault), diagnostics)

/-- The facts that collectors find, one after the other. Behind one that fails the others do
    not run; they have found nothing. -/
def runAll (assembly : Assembly) (framework : Option TargetFramework) :
    List Collector → StateM Diagnostics (List CollectorResult × Option Fault)
  | [] => pure ([], none)
  | collector :: rest => do
    match ← collector.run assembly framework with
    | (result, some fault) => pure (result :: rest.map emptyResult, some fault)
    | (result, none) => do
      let (results, fault) ← runAll assembly framework rest
      pure (result :: results, fault)

end Collector

/-! ## What collectors have in common -/

namespace Assembly

variable (assembly : Assembly)

/-- The type definitions, each of which may be damaged. -/
def definitions : List (Except Fault TypeDefRow) :=
  (assembly.table TypeDefRow).rows

/-- Looks at each type definition in order. -/
def eachDefinition (visit : TypeDefRow → Collecting Unit) : Collecting Unit :=
  assembly.definitions.forM fun row => do
    visit (← row)

/-- Looks at each method of each type definition in order. -/
def eachMethod (visit : MethodDefRow → Collecting Unit) : Collecting Unit :=
  assembly.eachDefinition fun type => do
    (← assembly.methodsOf type).forM visit

/-- The documentation ID of the type of another assembly that a token points at, if it points
    at one. -/
def referencedTypeId (target : Option Token) : Except Fault (Option String) :=
  match target.filter (·.isIn .typeRef) with
  | some token => do assembly.typeRefId (← assembly.row TypeRefRow token.row)
  | none => pure none

/-- A referenced member is a field. -/
def isFieldReference (member : MemberRefRow) : Except Fault Bool := do
  let blob ← assembly.blob member.signature
  match blob.data[0]? with
  | some byte => pure ((Signature.Header.mk byte).kind == .field)
  | none => throw (.malformed (.emptyMemberSignature member.token))

/-- The member of a type of another assembly that a token points at, if it points at one. -/
def externalMember (token : Token) : Except Fault (Option MemberRefRow) :=
  if token.isNil || !token.isIn .memberRef then
    pure none
  else do
    let member ← assembly.row MemberRefRow token.row
    let parent ← assembly.documentationParent member
    pure (if parent.any (·.isIn .typeRef) then some member else none)

end Assembly

end ApiCensus
