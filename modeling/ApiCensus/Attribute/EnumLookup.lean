/-
  Looking up the types that underlie enums of other assemblies.

  * `EnumLookup`: a look-up, which may remember things between questions.
  * `EnumLookup.none`, `EnumLookup.ofTable`: nothing is known; what is known is in a table.
  * `EnumLookup.ofFolders`: assemblies are searched for in folders, and each one is read once.
  * `EnumLookup.recording`: a look-up that records the names that it does not find.
-/
import ApiCensus.Attribute.EnumIndex
import ApiCensus.Attribute.EnumName
import ApiCensus.Folder

namespace ApiCensus

/-- Finds the type that underlies an enum. The state is what the look-up remembers. -/
abbrev EnumLookup (σ : Type) := EnumName → StateM σ (Option Primitive)

/-- An enum of a known type: its assembly, its full name and the type. -/
structure KnownEnum where
  assembly : String
  name : String
  type : Primitive
  deriving Repr, DecidableEq, Inhabited

/-- The enums of assemblies that were searched for, by the name of the assembly in lower
    case; `none` if no assembly could be read. -/
abbrev EnumCache := Std.HashMap String (Option EnumIndex)

namespace EnumLookup

variable {σ : Type}

/-- Finds nothing. -/
def none : EnumLookup σ := fun _ => pure .none

/-- Finds what is in a table; a later entry replaces an earlier one. -/
def ofTable (table : List KnownEnum) : EnumLookup σ := fun name =>
  let known := table.reverse.find? fun entry =>
    entry.assembly == name.assembly && entry.name == name.fullName
  pure (known.map KnownEnum.type)

/-- The file of an assembly. -/
def fileName (assembly : String) : String :=
  assembly ++ ".dll"

/-- The enums of an assembly: the first folder that has its file counts. -/
def load [HeaderReader] (folders : List Folder) (assembly : String) : Option EnumIndex := do
  let data ← folders.findSome? fun folder => folder.file? (fileName assembly)
  ((Assembly.ofBytes data).bind Assembly.enumIndex).toOption

/-- The enums of an assembly, which is searched for once: its name is remembered without a
    regard to case. -/
def indexOf [HeaderReader] (folders : List Folder) (assembly : String) :
    StateM EnumCache (Option EnumIndex) := do
  let key := assembly.map Char.toLower
  match (← get)[key]? with
  | some index => pure index
  | .none => do
    let index := load folders assembly
    modify (·.insert key index)
    pure index

/-- Finds enums in the assemblies of folders. -/
def ofFolders [HeaderReader] (folders : List Folder) : EnumLookup EnumCache := fun name => do
  let index ← indexOf folders name.assembly
  pure (index.bind fun index => index[name.fullName]?)

/-- The record of an enum that was not found. -/
def unresolved (name : EnumName) : Diagnostic :=
  { severity := .info, subject := .enum, message := s!"Unresolved enum {name}" }

/-- Records the names that are not found. -/
def recording (lookup : EnumLookup σ) : EnumLookup (Diagnostics × σ) :=
  fun name (diagnostics, memory) =>
    match lookup name memory with
    | (some type, memory) => (some type, (diagnostics, memory))
    | (.none, memory) => (.none, (diagnostics.push (unresolved name), memory))

end EnumLookup

end ApiCensus
