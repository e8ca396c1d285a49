/-
  The crawl: every API that an assembly refers to, as a set of keys.

  * `Assembly.crawl`: the keys of the referenced members and types, of the fields and
    properties that attributes set, and of the types in signatures.
  * `Assembly.recordEntity`: records what a token points at; a type specification leads to
    further tokens.
  * `Assembly.crawlType`: the attributes and signatures of a type, of its members and of the
    types inside it.

  Visits that lead to each other are levels. There are at most `limit + 1` of them inside each
  other; an assembly that needs more is given up.
-/
import ApiCensus.Api.Key
import ApiCensus.Assembly.Naming
import ApiCensus.Attribute.Arguments

namespace ApiCensus

/-- A crawl: the state of the look-up, and the keys recorded so far. -/
abbrev Crawling (σ : Type) := Attempt (σ × KeySet)

namespace Assembly

open Signature (Decoding)

variable {σ : Type} (assembly : Assembly) (lookup : EnumLookup σ) (limit : Nat)

/-! ## Recording -/

/-- Records a key; the empty text is no key. -/
def record (id : String) : Crawling σ Unit :=
  if id.isEmpty then pure ()
  else modify fun (state, keys) => (state, keys.insert ⟨id⟩)

/-- Records a key if there is one. -/
def recordSome (id : Option String) : Crawling σ Unit :=
  match id with
  | some id => record id
  | none => pure ()

/-- Records a referenced type. -/
def recordTypeRef (rid : Nat) : Crawling σ Unit := do
  let type ← assembly.row TypeRefRow rid
  recordSome (← assembly.typeRefId type)

/-- Records a referenced member, unless it is a member of a type of this assembly. -/
def recordMemberRef (member : MemberRefRow) : Crawling σ Unit := do
  if member.parent.table = .typeDef then pure ()
  else recordSome (← assembly.memberRefId member)

/-! ## Attributes -/

/-- The mark of the key of a field or property. -/
def targetMark : ArgumentTarget → String
  | .field => "F:"
  | .property => "P:"

/-- Records the field or property that a named argument sets, given the type of the
    attribute. -/
def recordArgument (type : Nat) (argument : NamedArgument) : Crawling σ Unit := do
  let parent ← assembly.typeRefName (← assembly.row TypeRefRow type)
  match parent, argument.name with
  | some parent, some name => record (targetMark argument.target ++ parent ++ "." ++ name)
  | _, _ => pure ()

/-- Records what an attribute sets, if its type is a referenced one. -/
def crawlAttribute (row : CustomAttributeRow) : Crawling σ Unit := do
  if row.constructor.table = .memberRef then
    let constructor ← assembly.row MemberRefRow row.constructor.row
    if constructor.parent.table = .typeRef then
      assembly.eachNamedArgument (lookupBeside lookup) row
        (assembly.recordArgument constructor.parent.row)

/-- Records what the attributes of a row set. -/
def crawlAttributes (parent : Token) : Crawling σ Unit := do
  let rows ← assembly.attributesOf parent
  rows.forM (assembly.crawlAttribute lookup)

/-! ## Signatures -/

/-- Records the types that a signature mentions, given how a token is recorded. What is made
    of a type is the token beneath it. -/
def walker (recordToken : Option Token → Crawling σ Unit) :
    TypeBuilder (σ × KeySet) (Option Token) :=
  let passOn (element : Option Token) : Crawling σ (Option Token) := do
    recordToken element
    pure element
  { primitive := fun type => do
      record ("T:System." ++ type.name)
      pure none
    definition := fun token _ => pure (some token)
    reference := fun token _ => do
      assembly.recordTypeRef token.row
      pure (some token)
    specification := fun token _ => pure (some token)
    vector := passOn
    array := fun element _ => passOn element
    byReference := passOn
    pointer := passOn
    pinned := passOn
    instantiation := fun generic arguments => do
      recordToken generic
      arguments.forM recordToken
      pure generic
    typeParameter := fun _ => pure none
    methodParameter := fun _ => pure none
    modified := fun _ unmodified _ => passOn unmodified
    functionPointer := fun signature => do
      signature.parameters.forM recordToken
      pure none }

/-- Records what a type specification mentions, given how a token is recorded. A type that is
    again a type specification is not followed. -/
def crawlTypeSpec (recordToken : Option Token → Crawling σ Unit) (rid : Nat) :
    Crawling σ Unit := do
  let type ← assembly.row TypeSpecRow rid
  assembly.crawlAttributes lookup type.token
  let blob ← assembly.blob type.signature
  let leaf ← (Signature.type (assembly.walker recordToken)).onBytes blob
  if leaf.any (·.isIn .typeSpec) then pure () else recordToken leaf

/-- Records what a token points at, with `levels` levels left. A shape without a token is a
    level too. -/
def recordEntity : Nat → Option Token → Crawling σ Unit
  | 0, _ => throw (.tooDeep limit)
  | levels + 1, entity =>
    match entity.filter fun token => !token.isNil with
    | none => pure ()
    | some token =>
      match token.table? with
      | some .typeRef => assembly.recordTypeRef token.row
      | some .memberRef => do
        let member ← assembly.row MemberRefRow token.row
        assembly.recordMemberRef member
      | some .typeSpec => assembly.crawlTypeSpec lookup (recordEntity levels) token.row
      | _ => pure ()

/-! ## Types and their members -/

/-- One level deeper, if there is one left. -/
def deeper (visit : Nat → Crawling σ Unit) : Nat → Crawling σ Unit
  | 0 => throw (.tooDeep limit)
  | levels + 1 => visit levels

/-- Records what a field mentions. -/
def crawlField (field : FieldRow) : Nat → Crawling σ Unit :=
  deeper limit fun levels => do
    assembly.crawlAttributes lookup field.token
    let blob ← assembly.blob field.signature
    let walker := assembly.walker (assembly.recordEntity lookup limit levels)
    let _ ← (Signature.fieldType walker).onBytes blob

/-- Records what the attributes of a method set. -/
def crawlMethod (rid : Nat) : Crawling σ Unit :=
  assembly.crawlAttributes lookup (Token.ofRow .methodDef rid)

/-- Records what a property mentions. -/
def crawlProperty (property : PropertyRow) : Nat → Crawling σ Unit :=
  deeper limit fun levels => do
    assembly.crawlAttributes lookup property.token
    let blob ← assembly.blob property.signature
    let walker := assembly.walker (assembly.recordEntity lookup limit levels)
    let _ ← (Signature.method walker).onBytes blob
    let accessors ← assembly.propertyAccessors property
    accessors.all.forM (assembly.crawlMethod lookup)

/-- Records what an event mentions. The method that raises it is left out. -/
def crawlEvent (event : EventRow) : Nat → Crawling σ Unit :=
  deeper limit fun levels => do
    assembly.crawlAttributes lookup event.token
    assembly.recordEntity lookup limit levels (some event.eventType.token)
    let accessors ← assembly.eventAccessors event
    ({ accessors with raiser := none }).all.forM (assembly.crawlMethod lookup)

/-- The type is one that a compiler puts into every assembly. -/
def isEmbedded (type : TypeDefRow) : Except Fault Bool := do
  let rows ← assembly.attributesOf type.token
  rows.anyM fun row => assembly.isNamed row "Microsoft.CodeAnalysis" "EmbeddedAttribute" true

/-- Records what a type and its members mention, given how the types inside it are visited. -/
def crawlTypeBy (nested : Nat → Crawling σ Unit) (levels : Nat) (type : TypeDefRow) :
    Crawling σ Unit := do
  if ← assembly.isEmbedded type then
    pure ()
  else
    assembly.crawlAttributes lookup type.token
    (← assembly.fieldsOf type).forM fun field => assembly.crawlField lookup limit field levels
    (← assembly.methodsOf type).forM fun method => assembly.crawlAttributes lookup method.token
    (← assembly.propertiesOf type).forM fun property =>
      assembly.crawlProperty lookup limit property levels
    (← assembly.eventsOf type).forM fun event => assembly.crawlEvent lookup limit event levels
    (assembly.nestedTypes type.rid).forM nested

/-- Records what a type mentions, with `levels` levels left. -/
def crawlType : Nat → TypeDefRow → Crawling σ Unit
  | 0, type => assembly.crawlTypeBy lookup limit (fun _ => throw (.tooDeep limit)) 0 type
  | levels + 1, type =>
    let nested (rid : Nat) : Crawling σ Unit := do
      let inner ← assembly.row TypeDefRow rid
      crawlType levels inner
    assembly.crawlTypeBy lookup limit nested (levels + 1) type

/-! ## The whole assembly -/

/-- Records everything that the assembly mentions. -/
def crawlAll : Crawling σ Unit := do
  assembly.crawlAttributes lookup self
  (assembly.table MemberRefRow).rows.forM fun row => do
    assembly.recordMemberRef (← row)
  (assembly.table TypeRefRow).rows.forM fun row => do
    assembly.recordTypeRef (← row).rid
  (assembly.table TypeDefRow).rows.forM fun row => do
    assembly.crawlType lookup limit (limit + 1) (← row)

/-- How many levels there are if nothing else is asked for. -/
def defaultLimit : Nat := 100

/-- The keys of everything that the assembly refers to. -/
def crawl : Attempt σ KeySet := fun state =>
  match assembly.crawlAll lookup limit (state, {}) with
  | (.ok (), (state, keys)) => (.ok keys, state)
  | (.error fault, (state, _)) => (.error fault, state)

end Assembly

end ApiCensus
