/-
  Facts about how an assembly uses its platform.

  * `Fact`: a fact, with its name and the API or framework that it is about.
  * `Fact.toString`: the canonical text of a fact.
  * `Fact.guid`: an identifier that depends on the text alone.
  * `FactSet`: facts without repetition.
-/
import ApiCensus.Api.Key
import ApiCensus.Bytes.Sha1
import ApiCensus.Framework
import ApiCensus.Metadata.Heap
import Std.Data.HashSet.Lemmas

namespace ApiCensus

/-- A fact about an assembly. -/
inductive Fact where
  /-- It relies on annotations of nullable references. -/
  | usesNullableReferences
  /-- It defines a structure that lives on the stack only. -/
  | definesReferenceStructs
  /-- It defines a field that is a reference. -/
  | definesReferenceFields
  /-- An interface of it has a method with a body. -/
  | definesDefaultMembers
  /-- An interface of it has a virtual static method. -/
  | definesVirtualStaticMembers
  /-- An interface of it implements a method of another assembly. -/
  | implementsByDefault (method : ApiKey)
  /-- A type of it derives from or implements a type of another assembly. -/
  | derivesFrom (type : ApiKey)
  /-- It throws a new exception with a constructor of another assembly. -/
  | throws (constructor : ApiKey)
  /-- It catches exceptions of a type of another assembly. -/
  | catches (type : ApiKey)
  /-- It reads a field of another assembly. -/
  | readsField (field : ApiKey)
  /-- It writes a field of another assembly. -/
  | writesField (field : ApiKey)
  /-- It is made for a framework. -/
  | targets (framework : TargetFramework)
  deriving Repr, DecidableEq, Hashable, Inhabited

namespace Fact

/-- The name of the kind of a fact. -/
def name : Fact → String
  | .usesNullableReferences => "UsesNullableReferenceTypes"
  | .definesReferenceStructs => "DefinesAnyRefStructs"
  | .definesReferenceFields => "DefinesAnyRefFields"
  | .definesDefaultMembers => "DefinesAnyDefaultInterfaceMembers"
  | .definesVirtualStaticMembers => "DefinesAnyVirtualStaticInterfaceMembers"
  | .implementsByDefault _ => "Dim"
  | .derivesFrom _ => "DerivesFrom"
  | .throws _ => "ExceptionThrow"
  | .catches _ => "ExceptionCatch"
  | .readsField _ => "FieldRead"
  | .writesField _ => "FieldWrite"
  | .targets _ => "TargetFramework"

/-- The API that a fact is about. -/
def api? : Fact → Option ApiKey
  | .implementsByDefault key | .derivesFrom key | .throws key | .catches key
  | .readsField key | .writesField key => some key
  | _ => none

/-- What a fact is about, as text. -/
def topic? (fact : Fact) : Option String :=
  match fact with
  | .targets framework => some framework.shortName
  | _ => fact.api?.map ApiKey.id

/-- The canonical text: the name, and what the fact is about in brackets. -/
protected def toString (fact : Fact) : String :=
  fact.name ++ fact.topic?.elim "" fun topic => "(" ++ topic ++ ")"

instance : ToString Fact := ⟨Fact.toString⟩

/-- The identifier of the space of names that facts belong to, in the order of its text. -/
def space : List UInt8 :=
  [0x4F, 0x0B, 0x8C, 0x6E, 0x2B, 0x9A, 0x4D, 0x51, 0x9C, 0x3E, 0x6F, 0x1D, 0x2A, 0x7B, 0x90, 0xC4]

/-- The identifier with the given bytes, which are in the order of the text; in the stored
    form the first three groups are turned round. -/
def guidOfText (bytes : List UInt8) : Guid :=
  let group (start stop : Nat) := (bytes.drop start).take (stop - start)
  ⟨((group 0 4).reverse ++ (group 4 6).reverse ++ (group 6 8).reverse
    ++ group 8 16).toByteArray⟩

/-- The identifier of a name in a space of names, made of their hash. -/
def guidOfName (space : List UInt8) (name : String) : Guid :=
  let bytes := (Sha1.digest (space.toByteArray ++ name.toUTF8)).take 16
  let bytes := bytes.modify 6 fun byte => byte &&& 0x0F ||| 0x50
  guidOfText (bytes.modify 8 fun byte => byte &&& 0x3F ||| 0x80)

/-- The identifier of a fact. -/
def guid (fact : Fact) : Guid :=
  guidOfName space fact.toString

end Fact

/-- Facts without repetition. -/
abbrev FactSet := Std.HashSet Fact

/-- The texts of facts, sorted. -/
def FactSet.texts (facts : FactSet) : List String :=
  (facts.toList.map toString).mergeSort

end ApiCensus
