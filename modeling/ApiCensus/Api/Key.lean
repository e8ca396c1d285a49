/-
  API keys: documentation IDs such as `M:System.Console.WriteLine(System.String)`.

  * `ApiKey`: a key; `ApiKey.kind` and `ApiKey.name` are its mark and what follows the mark.
  * `ApiKey.splitTypeName`: the namespace and the name in the key of a type.
  * `KeySet`: a set of keys, in the order of their texts.
-/
import ApiCensus.Text.Split
import Std.Data.TreeSet.Lemmas

namespace ApiCensus

/-- What a key names. -/
inductive ApiKind where
  | nameSpace | type | method | field | property | event
  deriving Repr, DecidableEq, Inhabited

namespace ApiKind

/-- Every kind. -/
def all : List ApiKind :=
  [.nameSpace, .type, .method, .field, .property, .event]

/-- The letter that marks a kind. -/
def letter : ApiKind → Char
  | .nameSpace => 'N'
  | .type => 'T'
  | .method => 'M'
  | .field => 'F'
  | .property => 'P'
  | .event => 'E'

/-- The name of a kind. -/
def name : ApiKind → String
  | .nameSpace => "Namespace"
  | .type => "Type"
  | .method => "Method"
  | .field => "Field"
  | .property => "Property"
  | .event => "Event"

/-- The kind that a letter marks. -/
def ofLetter? (letter : Char) : Option ApiKind :=
  all.find? fun kind => kind.letter == letter

@[simp] theorem ofLetter?_letter (kind : ApiKind) : ofLetter? kind.letter = some kind := by
  cases kind <;> rfl

end ApiKind

/-- A key. -/
structure ApiKey where
  id : String
  deriving Repr, DecidableEq, Hashable, Inhabited

namespace ApiKey

instance : ToString ApiKey := ⟨ApiKey.id⟩

/-- The kind that is marked and the text behind the mark. -/
def marked? (key : ApiKey) : Option (ApiKind × List Char) :=
  match key.id.toList with
  | letter :: ':' :: rest => (ApiKind.ofLetter? letter).map fun kind => (kind, rest)
  | _ => none

/-- What a key names, `none` without a known mark. -/
def kind (key : ApiKey) : Option ApiKind :=
  key.marked?.map Prod.fst

/-- The text behind the mark, the whole text without a known mark. -/
def name (key : ApiKey) : String :=
  key.marked?.elim key.id fun (_, rest) => String.ofList rest

/-- The namespace and the name in the text of a type. The last point before the generic
    arguments stands between them. -/
def splitName (text : List Char) : List Char × List Char :=
  let stem := text.takeWhile (· != '\x7b')
  match Split.atLast? '.' stem with
  | some (nameSpace, name) => (nameSpace, name ++ text.drop stem.length)
  | none => ([], text)

/-- The namespace and the name in the key of a type. -/
def splitTypeName (key : ApiKey) : Option (String × String) :=
  match key.marked? with
  | some (.type, text) =>
    let (nameSpace, name) := splitName text
    some (String.ofList nameSpace, String.ofList name)
  | _ => none

end ApiKey

/-- A set of keys. -/
structure KeySet where
  ids : Std.TreeSet String := ∅

namespace KeySet

/-- A key is in a set. -/
def contains (keys : KeySet) (key : ApiKey) : Bool :=
  keys.ids.contains key.id

instance : Membership ApiKey KeySet where
  mem keys key := keys.contains key = true

/-- The set with one more key. -/
def insert (keys : KeySet) (key : ApiKey) : KeySet :=
  { ids := keys.ids.insert key.id }

/-- The set of the keys in a list. -/
def ofList (keys : List ApiKey) : KeySet :=
  keys.foldl insert {}

/-- The keys in the order of their texts. -/
def toList (keys : KeySet) : List ApiKey :=
  keys.ids.toList.map ApiKey.mk

/-- The number of keys. -/
def size (keys : KeySet) : Nat :=
  keys.ids.size

/-- The set without keys. -/
def isEmpty (keys : KeySet) : Bool :=
  keys.ids.isEmpty

/-- The keys of both sets. -/
def union (keys others : KeySet) : KeySet :=
  others.toList.foldl insert keys

instance : BEq KeySet where
  beq keys others := keys.toList == others.toList

/-- A set with one more key holds that key and those it held. -/
theorem mem_insert {keys : KeySet} {key other : ApiKey} :
    other ∈ keys.insert key ↔ other = key ∨ other ∈ keys := by
  have same : key.id = other.id ↔ other = key := by
    cases key; cases other; simp [eq_comm]
  change (keys.ids.insert key.id).contains other.id = true ↔
    other = key ∨ keys.ids.contains other.id = true
  rw [Std.TreeSet.contains_insert, Bool.or_eq_true, beq_iff_eq, Std.compare_eq_iff_eq, same]

end KeySet

end ApiCensus
