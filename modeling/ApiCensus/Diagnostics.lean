/-
  What was noticed while an assembly was examined, without stopping the work.

  * `Diagnostic`: a message with its severity, its subject and the row that it is about.
  * `Diagnostics`: all messages, in the order in which they were recorded.
-/
import ApiCensus.Metadata.Token

namespace ApiCensus

/-- How bad a finding is. -/
inductive Severity where
  /-- No problem. -/
  | info
  /-- Some data was passed over. -/
  | warning
  /-- Data that should be readable was not. -/
  | error
  deriving Repr, DecidableEq, Inhabited

/-- The word for a severity. -/
def Severity.label : Severity → String
  | .info => "INFO"
  | .warning => "WARN"
  | .error => "ERROR"

/-- What a finding is about. -/
inductive Subject where
  | heap | table | customAttribute | signature | methodBody | enum | general
  deriving Repr, DecidableEq, Inhabited

namespace Subject

/-- Every subject. -/
def all : List Subject :=
  [.heap, .table, .customAttribute, .signature, .methodBody, .enum, .general]

/-- The name of a subject. -/
def name : Subject → String
  | .heap => "Heap"
  | .table => "Table"
  | .customAttribute => "CustomAttribute"
  | .signature => "Signature"
  | .methodBody => "MethodBody"
  | .enum => "Enum"
  | .general => "General"

end Subject

/-- A finding. -/
structure Diagnostic where
  severity : Severity
  subject : Subject
  message : String
  /-- The row that it belongs to. -/
  token : Option Token := none
  deriving Repr, DecidableEq, Inhabited

/-- The line for a finding. -/
protected def Diagnostic.toString (d : Diagnostic) : String :=
  let place := match d.token with
    | some token => s!" (token: {token})"
    | none => ""
  s!"[{d.severity.label}] {d.subject.name}: {d.message}" ++ place

instance : ToString Diagnostic := ⟨Diagnostic.toString⟩

/-- All findings, oldest first. -/
structure Diagnostics where
  entries : Array Diagnostic := #[]
  deriving Repr, DecidableEq, Inhabited

namespace Diagnostics

/-- Records a finding. -/
def push (diagnostics : Diagnostics) (d : Diagnostic) : Diagnostics :=
  { entries := diagnostics.entries.push d }

/-- The number of findings. -/
def count (diagnostics : Diagnostics) : Nat :=
  diagnostics.entries.size

/-- The number of findings of a severity. -/
def countOf (diagnostics : Diagnostics) (severity : Severity) : Nat :=
  diagnostics.entries.countP fun d => d.severity == severity

/-- The findings about a subject, in order. -/
def about (diagnostics : Diagnostics) (subject : Subject) : List Diagnostic :=
  diagnostics.entries.toList.filter fun d => d.subject == subject

/-- The numbers of findings, and a line for each. -/
def summary (diagnostics : Diagnostics) : String :=
  let count := diagnostics.countOf
  s!"Diagnostics: {count .error} error(s), {count .warning} warning(s), {count .info} info(s)\n"
    ++ String.join (diagnostics.entries.toList.map fun d => s!"  {d}\n")

end Diagnostics

end ApiCensus
