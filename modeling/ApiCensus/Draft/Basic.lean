/-
  Modules that are being written.

  * `ModuleDraft`: what a module has so far.
  * `Drafting`: a step that adds to it. The numbers and the tokens that steps give are those of
    the rows of the finished module.
  * `ModuleDraft.start`: a module with only the type of its global members.

  The fields of a type are a run of rows, and so are its methods, its properties and its
  events. A member is therefore refused once a later type has members of its kind. Names are
  held as indexes of the string heap, signatures as indexes of the blob heap.
-/
import ApiCensus.Draft.Heap
import ApiCensus.Metadata.Row

namespace ApiCensus

/-! ## Rows -/

/-- A referenced assembly. -/
structure AssemblyRefDraft where
  version : AssemblyVersion
  flags : Nat
  /-- The public key or its token, in the blob heap. -/
  key : Nat
  name : Nat

/-- A referenced type. -/
structure TypeRefDraft where
  /-- Where the type is found. -/
  scope : Token
  name : Nat
  nameSpace : Nat

/-- A type. -/
structure TypeDraft where
  flags : Nat
  name : Nat
  nameSpace : Nat
  base : Token

/-- A field or a property. -/
structure MemberDraft where
  /-- The row of the type that it belongs to. -/
  owner : Nat
  name : Nat
  signature : Nat

/-- A method. -/
structure MethodDraft extends MemberDraft where
  implFlags : Nat
  flags : Nat
  /-- The code, if there is a body. -/
  code : Option ByteArray
  /-- The types that the body catches. -/
  catches : List Token

/-- An event. -/
structure EventDraft where
  /-- The row of the type that it belongs to. -/
  owner : Nat
  name : Nat
  type : Token

/-- A method of a property or of an event. -/
structure AccessorDraft where
  semantics : Nat
  method : Nat
  /-- The property or the event. -/
  owner : Token

/-- A referenced member. -/
structure MemberRefDraft where
  /-- What the member belongs to. -/
  parent : Token
  name : Nat
  signature : Nat

/-- A method of a type that stands for a declared one. -/
structure MethodImplDraft where
  /-- The row of the type. -/
  owner : Nat
  body : Token
  /-- The declaration that it stands for. -/
  declaration : Token

/-- An attribute. -/
structure AttributeDraft where
  /-- What has the attribute. -/
  parent : Token
  constructor : Token
  /-- The arguments, in the blob heap. -/
  value : Nat

/-! ## Modules -/

/-- What a module has so far. -/
structure ModuleDraft where
  name : Nat
  /-- The module is the main one of an assembly. -/
  hasAssembly : Bool
  texts : HeapDraft String
  blobs : HeapDraft ByteArray := {}
  /-- The assembly that holds the types of the framework, once one is referenced. -/
  framework : Option Token := none
  assemblyRefs : Array AssemblyRefDraft := #[]
  typeRefs : Array TypeRefDraft := #[]
  types : Array TypeDraft
  /-- The rows of a type and of the type around it. -/
  nested : Array (Nat × Nat) := #[]
  fields : Array MemberDraft := #[]
  methods : Array MethodDraft := #[]
  properties : Array MemberDraft := #[]
  events : Array EventDraft := #[]
  accessors : Array AccessorDraft := #[]
  memberRefs : Array MemberRefDraft := #[]
  /-- The signatures of the type specifications, in the blob heap. -/
  typeSpecs : Array Nat := #[]
  /-- The row of a type and an interface of it. -/
  interfaces : Array (Nat × Token) := #[]
  methodImpls : Array MethodImplDraft := #[]
  attributes : Array AttributeDraft := #[]

/-- A member was added to a type when a later type had members of that kind. -/
structure OutOfOrder where
  /-- The row of the type. -/
  owner : Nat
  /-- The row of the later type. -/
  last : Nat
  deriving Repr, DecidableEq, Inhabited

/-- The wording of the refusal. -/
def OutOfOrder.message (failure : OutOfOrder) : String :=
  s!"members of type {failure.owner} added after those of type Some({failure.last})"

/-- A step that adds to a module. -/
abbrev Drafting := StateT ModuleDraft (Except OutOfOrder)

namespace ModuleDraft

/-- A module of a given name. Its first type is the one of the global members. -/
def start (name : String) (hasAssembly : Bool) : ModuleDraft :=
  let (name, texts) := HeapDraft.add name {}
  let (global, texts) := texts.add "<Module>"
  { name, hasAssembly, texts
    types := #[{ flags := 0, name := global, nameSpace := 0, base := Token.ofNat 0 }] }

/-- The token of the assembly. -/
def assemblyToken : Token :=
  Token.ofRow .assembly 1

/-- The index of a text. -/
def text (value : String) : Drafting Nat :=
  modifyGet fun draft =>
    let (index, texts) := draft.texts.add value
    (index, { draft with texts })

/-- The index of a byte string. -/
def blob (value : ByteArray) : Drafting Nat :=
  modifyGet fun draft =>
    let (index, blobs) := draft.blobs.add value
    (index, { draft with blobs })

/-- Stops if the last member of a kind belongs to a later type. -/
def requireOrder (last : Option Nat) (owner : Nat) : Drafting Unit :=
  match last with
  | some last => if owner < last then throw { owner, last } else pure ()
  | none => pure ()

/-! ## References -/

/-- Adds a referenced assembly. -/
def addAssemblyRef (name : String) (version : AssemblyVersion) (key : ByteArray) (flags : Nat) :
    Drafting Token := do
  let key ← blob key
  let name ← text name
  modifyGet fun draft =>
    (Token.ofRow .assemblyRef (draft.assemblyRefs.size + 1),
      { draft with assemblyRefs := draft.assemblyRefs.push { version, flags, key, name } })

/-- Adds a type that is found in a scope. -/
def addTypeRefIn (scope : Token) (nameSpace name : String) : Drafting Token := do
  let name ← text name
  let nameSpace ← text nameSpace
  modifyGet fun draft =>
    (Token.ofRow .typeRef (draft.typeRefs.size + 1),
      { draft with typeRefs := draft.typeRefs.push { scope, name, nameSpace } })

/-- The token of the public key of the framework. -/
def frameworkKey : ByteArray :=
  ⟨#[0xB0, 0x3F, 0x5F, 0x7F, 0x11, 0xD5, 0x0A, 0x3A]⟩

/-- The assembly that holds the types of the framework, which is added once. -/
def frameworkRef : Drafting Token := do
  match (← get).framework with
  | some token => pure token
  | none => do
    let version := { major := 8, minor := 0, build := 0, revision := 0 }
    let token ← addAssemblyRef "System.Runtime" version frameworkKey 0
    modify fun draft => { draft with framework := some token }
    pure token

/-- Adds a referenced type of the framework. -/
def addTypeRef (nameSpace name : String) : Drafting Token := do
  addTypeRefIn (← frameworkRef) nameSpace name

/-- Adds a referenced type that is inside another one. -/
def addNestedTypeRef (parent : Token) (name : String) : Drafting Token :=
  addTypeRefIn parent "" name

/-- Adds a referenced member. -/
def addMemberRef (parent : Token) (name : String) (signature : ByteArray) : Drafting Token := do
  let name ← text name
  let signature ← blob signature
  modifyGet fun draft =>
    (Token.ofRow .memberRef (draft.memberRefs.size + 1),
      { draft with memberRefs := draft.memberRefs.push { parent, name, signature } })

/-- Adds a type that a signature describes. -/
def addTypeSpec (signature : ByteArray) : Drafting Token := do
  let signature ← blob signature
  modifyGet fun draft =>
    (Token.ofRow .typeSpec (draft.typeSpecs.size + 1),
      { draft with typeSpecs := draft.typeSpecs.push signature })

/-! ## Types -/

/-- Adds a type with given flags and gives its row. -/
def addType (flags : Nat) (nameSpace name : String) (base : Token) : Drafting Nat := do
  let name ← text name
  let nameSpace ← text nameSpace
  modifyGet fun draft =>
    (draft.types.size + 1,
      { draft with types := draft.types.push { flags, name, nameSpace, base } })

/-- The flags of a public class. -/
def classFlags : Nat := 0x100001

/-- The flags of a public class inside a type. -/
def nestedClassFlags : Nat := 0x100002

/-- The flags of a public interface. -/
def interfaceFlags : Nat := 0xA1

/-- Adds a public class. -/
def addClass (nameSpace name : String) (base : Token) : Drafting Nat :=
  addType classFlags nameSpace name base

/-- Adds a public interface. -/
def addInterface (nameSpace name : String) : Drafting Nat :=
  addType interfaceFlags nameSpace name (Token.ofNat 0)

/-- Adds a public class inside a type. -/
def addNestedClass (enclosing : Nat) (name : String) (base : Token) : Drafting Nat := do
  let rid ← addType nestedClassFlags "" name base
  modify fun draft => { draft with nested := draft.nested.push (rid, enclosing) }
  pure rid

/-- A type has an interface. -/
def implement (type : Nat) (interface : Token) : Drafting Unit :=
  modify fun draft => { draft with interfaces := draft.interfaces.push (type, interface) }

/-- A method of a type stands for a declared one. -/
def implementMethod (owner : Nat) (body declaration : Token) : Drafting Unit :=
  modify fun draft =>
    { draft with methodImpls := draft.methodImpls.push { owner, body, declaration } }

/-- Something has an attribute. -/
def addAttribute (parent constructor : Token) (value : ByteArray) : Drafting Unit := do
  let value ← blob value
  modify fun draft =>
    { draft with attributes := draft.attributes.push { parent, constructor, value } }

/-! ## Members -/

/-- Adds a public field and gives its row. -/
def addField (owner : Nat) (name : String) (signature : ByteArray) : Drafting Nat := do
  requireOrder ((← get).fields.back?.map MemberDraft.owner) owner
  let name ← text name
  let signature ← blob signature
  modifyGet fun draft =>
    (draft.fields.size + 1,
      { draft with fields := draft.fields.push { owner, name, signature } })

/-- The flags of a public method with a body. -/
def methodFlags : Nat := 0x86

/-- The flags of a public method without a body. -/
def abstractMethodFlags : Nat := 0x5C6

/-- Adds a public method and gives its row. It has a body if there is a code. -/
def addMethod (owner : Nat) (name : String) (signature : ByteArray) (code : Option ByteArray) :
    Drafting Nat := do
  requireOrder ((← get).methods.back?.map fun method => method.owner) owner
  let name ← text name
  let signature ← blob signature
  let flags := if code.isSome then methodFlags else abstractMethodFlags
  modifyGet fun draft =>
    (draft.methods.size + 1,
      { draft with
        methods := draft.methods.push
          { owner, name, signature, implFlags := 0, flags, code, catches := [] } })

/-- Changes a method; without effect if there is no such row. -/
def changeMethod (method : Nat) (change : MethodDraft → MethodDraft) : Drafting Unit :=
  modify fun draft =>
    if method = 0 then draft
    else { draft with methods := draft.methods.modify (method - 1) change }

/-- Replaces the flags of a method. -/
def setMethodFlags (method flags : Nat) : Drafting Unit :=
  changeMethod method fun m => { m with flags }

/-- Replaces the flags of the implementation of a method. -/
def setImplFlags (method flags : Nat) : Drafting Unit :=
  changeMethod method fun m => { m with implFlags := flags }

/-- A method catches a type anywhere in its code. -/
def addCatch (method : Nat) (type : Token) : Drafting Unit :=
  changeMethod method fun m => { m with catches := m.catches ++ [type] }

/-- Adds a property and gives its row. -/
def addProperty (owner : Nat) (name : String) (signature : ByteArray) : Drafting Nat := do
  requireOrder ((← get).properties.back?.map MemberDraft.owner) owner
  let name ← text name
  let signature ← blob signature
  modifyGet fun draft =>
    (draft.properties.size + 1,
      { draft with properties := draft.properties.push { owner, name, signature } })

/-- Adds an event and gives its row. -/
def addEvent (owner : Nat) (name : String) (type : Token) : Drafting Nat := do
  requireOrder ((← get).events.back?.map EventDraft.owner) owner
  let name ← text name
  modifyGet fun draft =>
    (draft.events.size + 1, { draft with events := draft.events.push { owner, name, type } })

/-- A method is an accessor of a property or an event. -/
def addAccessor (owner : Token) (method semantics : Nat) : Drafting Unit :=
  modify fun draft =>
    { draft with accessors := draft.accessors.push { semantics, method, owner } }

/-- The semantics of a method that reads a property. -/
def getterSemantics : Nat := 2

/-- A method reads a property. -/
def setGetter (property method : Nat) : Drafting Unit :=
  addAccessor (Token.ofRow .property property) method getterSemantics

/-- A method is an accessor of an event. -/
def addEventAccessor (event method semantics : Nat) : Drafting Unit :=
  addAccessor (Token.ofRow .event event) method semantics

end ModuleDraft

end ApiCensus
