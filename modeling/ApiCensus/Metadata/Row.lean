/-
  The rows of the metadata tables that describe an assembly.

  * `MetadataRow`: a kind of row, the table that holds it and how it is read.
  * `TypeDefRow`, `MethodDefRow`, …: the rows, a field for each column.

  A row is read column by column, in the order in which the table stores them. Names and cultures
  are held as indexes of the string heap, signatures and keys as indexes of the blob heap.
-/
import ApiCensus.Metadata.CodedIndex

namespace ApiCensus

/-- A kind of row. -/
class MetadataRow (α : Type) where
  /-- The table that holds the rows. -/
  table : TableId
  /-- The row at the cursor, given its number. -/
  read (layout : Layout) (rid : Nat) : Attempt Cursor α

/-- A version of four numbers. -/
structure AssemblyVersion where
  major : Nat
  minor : Nat
  build : Nat
  revision : Nat
  deriving Repr, DecidableEq, Inhabited

namespace AssemblyVersion

/-- The four numbers with points between them. -/
protected def toString (version : AssemblyVersion) : String :=
  s!"{version.major}.{version.minor}.{version.build}.{version.revision}"

instance : ToString AssemblyVersion := ⟨AssemblyVersion.toString⟩

/-- The four columns of a version. -/
def read : Attempt Cursor AssemblyVersion := do
  let major ← Cursor.number 2
  let minor ← Cursor.number 2
  let build ← Cursor.number 2
  let revision ← Cursor.number 2
  pure { major, minor, build, revision }

end AssemblyVersion

/-! ## Assemblies -/

/-- The assembly itself. -/
structure AssemblyRow where
  rid : Nat
  hashAlgorithm : Nat
  version : AssemblyVersion
  flags : Nat
  publicKey : Nat
  name : Nat
  culture : Nat
  deriving Repr, Inhabited

instance : MetadataRow AssemblyRow where
  table := .assembly
  read layout rid := do
    let hashAlgorithm ← Cursor.number 4
    let version ← AssemblyVersion.read
    let flags ← Cursor.number 4
    let publicKey ← Cursor.index layout.wideBlobs
    let name ← Cursor.index layout.wideText
    let culture ← Cursor.index layout.wideText
    pure { rid, hashAlgorithm, version, flags, publicKey, name, culture }

/-- The token of the row. -/
def AssemblyRow.token (row : AssemblyRow) : Token := Token.ofRow .assembly row.rid

/-- A referenced assembly. -/
structure AssemblyRefRow where
  rid : Nat
  version : AssemblyVersion
  flags : Nat
  /-- The public key or its token, in the blob heap. -/
  publicKeyOrToken : Nat
  name : Nat
  culture : Nat
  hashValue : Nat
  deriving Repr, Inhabited

instance : MetadataRow AssemblyRefRow where
  table := .assemblyRef
  read layout rid := do
    let version ← AssemblyVersion.read
    let flags ← Cursor.number 4
    let publicKeyOrToken ← Cursor.index layout.wideBlobs
    let name ← Cursor.index layout.wideText
    let culture ← Cursor.index layout.wideText
    let hashValue ← Cursor.index layout.wideBlobs
    pure { rid, version, flags, publicKeyOrToken, name, culture, hashValue }

namespace AssemblyRefRow

/-- The token of the row. -/
def token (row : AssemblyRefRow) : Token := Token.ofRow .assemblyRef row.rid

/-- The row holds a whole public key. -/
def hasFullPublicKey (row : AssemblyRefRow) : Bool := row.flags.testBit 0

end AssemblyRefRow

/-! ## Attributes -/

/-- An attribute of a row of some table. -/
structure CustomAttributeRow where
  rid : Nat
  parent : CodedIndex
  constructor : CodedIndex
  /-- The arguments, in the blob heap. -/
  value : Nat
  deriving Repr, Inhabited

instance : MetadataRow CustomAttributeRow where
  table := .customAttribute
  read layout rid := do
    let parent ← CodedIndex.read layout .hasCustomAttribute
    let constructor ← CodedIndex.read layout .customAttributeType
    let value ← Cursor.index layout.wideBlobs
    pure { rid, parent, constructor, value }

/-- The token of the row. -/
def CustomAttributeRow.token (row : CustomAttributeRow) : Token :=
  Token.ofRow .customAttribute row.rid

/-! ## Events -/

/-- An event. -/
structure EventRow where
  rid : Nat
  flags : Nat
  name : Nat
  eventType : CodedIndex
  deriving Repr, Inhabited

instance : MetadataRow EventRow where
  table := .event
  read layout rid := do
    let flags ← Cursor.number 2
    let name ← Cursor.index layout.wideText
    let eventType ← CodedIndex.read layout .typeDefOrRef
    pure { rid, flags, name, eventType }

/-- The token of the row. -/
def EventRow.token (row : EventRow) : Token := Token.ofRow .event row.rid

/-- The events of a type. -/
structure EventMapRow where
  rid : Nat
  /-- The type. -/
  parent : Nat
  /-- The first event. -/
  eventList : Nat
  deriving Repr, Inhabited

instance : MetadataRow EventMapRow where
  table := .eventMap
  read layout rid := do
    let parent ← Cursor.index (layout.isLarge .typeDef)
    let eventList ← Cursor.index (layout.isLarge .event)
    pure { rid, parent, eventList }

/-- An entry of a list of events. -/
structure EventPtrRow where
  rid : Nat
  event : Nat
  deriving Repr, Inhabited

instance : MetadataRow EventPtrRow where
  table := .eventPtr
  read layout rid := do
    let event ← Cursor.index (layout.isLarge .event)
    pure { rid, event }

/-! ## Fields -/

/-- A field. -/
structure FieldRow where
  rid : Nat
  flags : Nat
  name : Nat
  signature : Nat
  deriving Repr, Inhabited

instance : MetadataRow FieldRow where
  table := .field
  read layout rid := do
    let flags ← Cursor.number 2
    let name ← Cursor.index layout.wideText
    let signature ← Cursor.index layout.wideBlobs
    pure { rid, flags, name, signature }

/-- The token of the row. -/
def FieldRow.token (row : FieldRow) : Token := Token.ofRow .field row.rid

/-- An entry of a list of fields. -/
structure FieldPtrRow where
  rid : Nat
  field : Nat
  deriving Repr, Inhabited

instance : MetadataRow FieldPtrRow where
  table := .fieldPtr
  read layout rid := do
    let field ← Cursor.index (layout.isLarge .field)
    pure { rid, field }

/-! ## Interfaces and references -/

/-- A type implements an interface. -/
structure InterfaceImplRow where
  rid : Nat
  /-- The type. -/
  owner : Nat
  interface : CodedIndex
  deriving Repr, Inhabited

instance : MetadataRow InterfaceImplRow where
  table := .interfaceImpl
  read layout rid := do
    let owner ← Cursor.index (layout.isLarge .typeDef)
    let interface ← CodedIndex.read layout .typeDefOrRef
    pure { rid, owner, interface }

/-- The token of the row. -/
def InterfaceImplRow.token (row : InterfaceImplRow) : Token := Token.ofRow .interfaceImpl row.rid

/-- A referenced field or method. -/
structure MemberRefRow where
  rid : Nat
  /-- What the member belongs to. -/
  parent : CodedIndex
  name : Nat
  signature : Nat
  deriving Repr, Inhabited

instance : MetadataRow MemberRefRow where
  table := .memberRef
  read layout rid := do
    let parent ← CodedIndex.read layout .memberRefParent
    let name ← Cursor.index layout.wideText
    let signature ← Cursor.index layout.wideBlobs
    pure { rid, parent, name, signature }

/-- The token of the row. -/
def MemberRefRow.token (row : MemberRefRow) : Token := Token.ofRow .memberRef row.rid

/-! ## Methods -/

/-- A method. -/
structure MethodDefRow where
  rid : Nat
  /-- The relative address of the body, 0 if there is none. -/
  address : Nat
  implFlags : Nat
  flags : Nat
  name : Nat
  signature : Nat
  /-- The first parameter. -/
  paramList : Nat
  deriving Repr, Inhabited

instance : MetadataRow MethodDefRow where
  table := .methodDef
  read layout rid := do
    let address ← Cursor.number 4
    let implFlags ← Cursor.number 2
    let flags ← Cursor.number 2
    let name ← Cursor.index layout.wideText
    let signature ← Cursor.index layout.wideBlobs
    let paramList ← Cursor.index (layout.isLarge .param)
    pure { rid, address, implFlags, flags, name, signature, paramList }

/-- The two low bits of the implementation flags tell the kind of code. -/
def implCodeType (implFlags : Nat) : Nat := implFlags % 4

/-- A method with these implementation flags can have a body of managed code: the code is
    neither native, nor of the runtime, nor unmanaged, nor internal. -/
def hasManagedCode (implFlags : Nat) : Bool :=
  implCodeType implFlags == 0 && !implFlags.testBit 2 && !implFlags.testBit 12

namespace MethodDefRow

/-- The token of the row. -/
def token (row : MethodDefRow) : Token := Token.ofRow .methodDef row.rid

/-- The method has a body of managed code. -/
def hasBody (row : MethodDefRow) : Bool :=
  row.address != 0 && hasManagedCode row.implFlags

/-- The method is static. -/
def isStatic (row : MethodDefRow) : Bool := row.flags.testBit 4

/-- The method is virtual. -/
def isVirtual (row : MethodDefRow) : Bool := row.flags.testBit 6

/-- The method is abstract. -/
def isAbstract (row : MethodDefRow) : Bool := row.flags.testBit 10

end MethodDefRow

/-- An entry of a list of methods. -/
structure MethodPtrRow where
  rid : Nat
  method : Nat
  deriving Repr, Inhabited

instance : MetadataRow MethodPtrRow where
  table := .methodPtr
  read layout rid := do
    let method ← Cursor.index (layout.isLarge .methodDef)
    pure { rid, method }

/-- In a type, one method implements another. -/
structure MethodImplRow where
  rid : Nat
  /-- The type. -/
  owner : Nat
  /-- The method that implements. -/
  body : CodedIndex
  /-- The method that is implemented. -/
  declaration : CodedIndex
  deriving Repr, Inhabited

instance : MetadataRow MethodImplRow where
  table := .methodImpl
  read layout rid := do
    let owner ← Cursor.index (layout.isLarge .typeDef)
    let body ← CodedIndex.read layout .methodDefOrRef
    let declaration ← CodedIndex.read layout .methodDefOrRef
    pure { rid, owner, body, declaration }

/-- The token of the row. -/
def MethodImplRow.token (row : MethodImplRow) : Token := Token.ofRow .methodImpl row.rid

/-- A method is an accessor of a property or an event. -/
structure MethodSemanticsRow where
  rid : Nat
  /-- The bits that tell which accessor. -/
  semantics : Nat
  method : Nat
  association : CodedIndex
  deriving Repr, Inhabited

instance : MetadataRow MethodSemanticsRow where
  table := .methodSemantics
  read layout rid := do
    let semantics ← Cursor.number 2
    let method ← Cursor.index (layout.isLarge .methodDef)
    let association ← CodedIndex.read layout .hasSemantics
    pure { rid, semantics, method, association }

/-! ## Properties -/

/-- A property. -/
structure PropertyRow where
  rid : Nat
  flags : Nat
  name : Nat
  signature : Nat
  deriving Repr, Inhabited

instance : MetadataRow PropertyRow where
  table := .property
  read layout rid := do
    let flags ← Cursor.number 2
    let name ← Cursor.index layout.wideText
    let signature ← Cursor.index layout.wideBlobs
    pure { rid, flags, name, signature }

/-- The token of the row. -/
def PropertyRow.token (row : PropertyRow) : Token := Token.ofRow .property row.rid

/-- The properties of a type. -/
structure PropertyMapRow where
  rid : Nat
  /-- The type. -/
  parent : Nat
  /-- The first property. -/
  propertyList : Nat
  deriving Repr, Inhabited

instance : MetadataRow PropertyMapRow where
  table := .propertyMap
  read layout rid := do
    let parent ← Cursor.index (layout.isLarge .typeDef)
    let propertyList ← Cursor.index (layout.isLarge .property)
    pure { rid, parent, propertyList }

/-- An entry of a list of properties. -/
structure PropertyPtrRow where
  rid : Nat
  property : Nat
  deriving Repr, Inhabited

instance : MetadataRow PropertyPtrRow where
  table := .propertyPtr
  read layout rid := do
    let property ← Cursor.index (layout.isLarge .property)
    pure { rid, property }

/-! ## Types -/

/-- A type lies inside another. -/
structure NestedClassRow where
  rid : Nat
  /-- The inner type. -/
  nested : Nat
  /-- The outer type. -/
  enclosing : Nat
  deriving Repr, Inhabited

instance : MetadataRow NestedClassRow where
  table := .nestedClass
  read layout rid := do
    let nested ← Cursor.index (layout.isLarge .typeDef)
    let enclosing ← Cursor.index (layout.isLarge .typeDef)
    pure { rid, nested, enclosing }

/-- A type. -/
structure TypeDefRow where
  rid : Nat
  flags : Nat
  name : Nat
  nameSpace : Nat
  base : CodedIndex
  /-- The first field. -/
  fieldList : Nat
  /-- The first method. -/
  methodList : Nat
  deriving Repr, Inhabited

instance : MetadataRow TypeDefRow where
  table := .typeDef
  read layout rid := do
    let flags ← Cursor.number 4
    let name ← Cursor.index layout.wideText
    let nameSpace ← Cursor.index layout.wideText
    let base ← CodedIndex.read layout .typeDefOrRef
    let fieldList ← Cursor.index (layout.isLarge .field)
    let methodList ← Cursor.index (layout.isLarge .methodDef)
    pure { rid, flags, name, nameSpace, base, fieldList, methodList }

namespace TypeDefRow

/-- The token of the row. -/
def token (row : TypeDefRow) : Token := Token.ofRow .typeDef row.rid

/-- The type is an interface. -/
def isInterface (row : TypeDefRow) : Bool := row.flags.testBit 5

/-- The visibility is one of those that only types inside others have. -/
def hasNestedVisibility (row : TypeDefRow) : Bool := 2 ≤ row.flags % 8

end TypeDefRow

/-- A referenced type. -/
structure TypeRefRow where
  rid : Nat
  /-- Where the type is found. -/
  scope : CodedIndex
  name : Nat
  nameSpace : Nat
  deriving Repr, Inhabited

instance : MetadataRow TypeRefRow where
  table := .typeRef
  read layout rid := do
    let scope ← CodedIndex.read layout .resolutionScope
    let name ← Cursor.index layout.wideText
    let nameSpace ← Cursor.index layout.wideText
    pure { rid, scope, name, nameSpace }

/-- The token of the row. -/
def TypeRefRow.token (row : TypeRefRow) : Token := Token.ofRow .typeRef row.rid

/-- A type that a signature describes. -/
structure TypeSpecRow where
  rid : Nat
  signature : Nat
  deriving Repr, Inhabited

instance : MetadataRow TypeSpecRow where
  table := .typeSpec
  read layout rid := do
    let signature ← Cursor.index layout.wideBlobs
    pure { rid, signature }

/-- The token of the row. -/
def TypeSpecRow.token (row : TypeSpecRow) : Token := Token.ofRow .typeSpec row.rid

end ApiCensus
