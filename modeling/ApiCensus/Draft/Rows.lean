/-
  The rows of a module that is being written.

  * `ModuleDraft.rows`: the values of the columns of every row of a table, in order. Tables
    that are searched by a column are sorted by it.
-/
import ApiCensus.Draft.Basic

namespace ApiCensus

open CodedIndex (encode)

namespace ModuleDraft

/-- The number behind the members of the types before a type, given the owners of all
    members. -/
def firstOf (owners : List Nat) (type : Nat) : Nat :=
  owners.countP (· < type) + 1

/-- The first member of each run of members with one owner; `last` is the owner of the member
    before, and `number` that of the next one. -/
def runStarts (last : Option Nat) (number : Nat) : List Nat → List (List Nat)
  | [] => []
  | owner :: rest =>
    if last = some owner then runStarts last (number + 1) rest
    else [owner, number] :: runStarts (some owner) (number + 1) rest

/-- Rows sorted by a number; rows with the same number keep their order. -/
def sortedBy (key : List Nat → Nat) (rows : List (List Nat)) : List (List Nat) :=
  rows.mergeSort fun a b => decide (key a ≤ key b)

/-- A column of a row. -/
def column (index : Nat) (row : List Nat) : Nat :=
  row.getD index 0

/-- The flags of a public field. -/
def fieldFlags : Nat := 6

/-- The number of the algorithm that files are hashed with. -/
def hashAlgorithm : Nat := 0x8004

/-- The rows of the types. -/
def typeRows (draft : ModuleDraft) : List (List Nat) :=
  let fieldOwners := draft.fields.toList.map MemberDraft.owner
  let methodOwners := draft.methods.toList.map fun method => method.owner
  draft.types.toList.mapIdx fun index type =>
    [type.flags, type.name, type.nameSpace, encode .typeDefOrRef type.base,
     firstOf fieldOwners (index + 1), firstOf methodOwners (index + 1)]

/-- The values of the columns of every row of a table, given the addresses of the bodies. -/
def rows (draft : ModuleDraft) (addresses : List Nat) : TableId → List (List Nat)
  | .module => [[0, draft.name, 1, 0, 0]]
  | .typeRef => draft.typeRefs.toList.map fun type =>
    [encode .resolutionScope type.scope, type.name, type.nameSpace]
  | .typeDef => draft.typeRows
  | .field => draft.fields.toList.map fun field => [fieldFlags, field.name, field.signature]
  | .methodDef => (draft.methods.toList.zip addresses).map fun (method, address) =>
    [address, method.implFlags, method.flags, method.name, method.signature, 1]
  | .interfaceImpl => sortedBy (column 0) (draft.interfaces.toList.map fun (type, interface) =>
    [type, encode .typeDefOrRef interface])
  | .memberRef => draft.memberRefs.toList.map fun member =>
    [encode .memberRefParent member.parent, member.name, member.signature]
  | .customAttribute => sortedBy (column 0) (draft.attributes.toList.map fun given =>
    [encode .hasCustomAttribute given.parent, encode .customAttributeType given.constructor,
     given.value])
  | .eventMap => runStarts none 1 (draft.events.toList.map EventDraft.owner)
  | .event => draft.events.toList.map fun event =>
    [0, event.name, encode .typeDefOrRef event.type]
  | .propertyMap => runStarts none 1 (draft.properties.toList.map MemberDraft.owner)
  | .property => draft.properties.toList.map fun property => [0, property.name, property.signature]
  | .methodSemantics => sortedBy (column 2) (draft.accessors.toList.map fun accessor =>
    [accessor.semantics, accessor.method, encode .hasSemantics accessor.owner])
  | .methodImpl => sortedBy (column 0) (draft.methodImpls.toList.map fun implementation =>
    [implementation.owner, encode .methodDefOrRef implementation.body,
     encode .methodDefOrRef implementation.declaration])
  | .typeSpec => draft.typeSpecs.toList.map fun signature => [signature]
  | .assembly =>
    if draft.hasAssembly then [[hashAlgorithm, 1, 0, 0, 0, 0, 0, draft.name, 0]] else []
  | .assemblyRef => draft.assemblyRefs.toList.map fun assembly =>
    [assembly.version.major, assembly.version.minor, assembly.version.build,
     assembly.version.revision, assembly.flags, assembly.key, assembly.name, 0, 0]
  | .nestedClass => sortedBy (column 0) (draft.nested.toList.map fun (type, enclosing) =>
    [type, enclosing])
  | _ => []

end ModuleDraft

end ApiCensus
