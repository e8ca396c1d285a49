/-
  The kinds of coded index: a column that packs a table and a row into one number.

  * `CodedKind.tables`: the tables of a kind, each at the place of its tag.
  * `CodedKind.tagBits`: the number of low bits that hold the tag.
-/
import ApiCensus.Metadata.TableId

namespace ApiCensus

/-- A kind of coded index. -/
inductive CodedKind where
  | typeDefOrRef | hasConstant | hasCustomAttribute | hasFieldMarshal | hasDeclSecurity
  | memberRefParent | hasSemantics | methodDefOrRef | memberForwarded | implementation
  | customAttributeType | resolutionScope | typeOrMethodDef
  deriving Repr, DecidableEq, Inhabited

namespace CodedKind

/-- Every kind, in the order of the constructors. -/
def all : List CodedKind :=
  [.typeDefOrRef, .hasConstant, .hasCustomAttribute, .hasFieldMarshal, .hasDeclSecurity,
   .memberRefParent, .hasSemantics, .methodDefOrRef, .memberForwarded, .implementation,
   .customAttributeType, .resolutionScope, .typeOrMethodDef]

/-- The tables of a kind; a table's place is its tag. The tags of an attribute constructor
    that have no meaning of their own stand for the nearest table that has. -/
def tables : CodedKind → List TableId
  | .typeDefOrRef => [.typeDef, .typeRef, .typeSpec]
  | .hasConstant => [.field, .param, .property]
  | .hasCustomAttribute =>
    [.methodDef, .field, .typeRef, .typeDef, .param, .interfaceImpl, .memberRef, .module,
     .declSecurity, .property, .event, .standAloneSig, .moduleRef, .typeSpec, .assembly,
     .assemblyRef, .file, .exportedType, .manifestResource, .genericParam,
     .genericParamConstraint, .methodSpec]
  | .hasFieldMarshal => [.field, .param]
  | .hasDeclSecurity => [.typeDef, .methodDef, .assembly]
  | .memberRefParent => [.typeDef, .typeRef, .moduleRef, .methodDef, .typeSpec]
  | .hasSemantics => [.event, .property]
  | .methodDefOrRef => [.methodDef, .memberRef]
  | .memberForwarded => [.field, .methodDef]
  | .implementation => [.file, .assemblyRef, .exportedType]
  | .customAttributeType => [.methodDef, .methodDef, .methodDef, .memberRef, .memberRef]
  | .resolutionScope => [.module, .moduleRef, .assemblyRef, .typeRef]
  | .typeOrMethodDef => [.typeDef, .methodDef]

/-- The least number of bits that tells the tables of a kind apart. -/
def tagBits (kind : CodedKind) : Nat :=
  Nat.log2 (kind.tables.length - 1) + 1

/-- The name of a kind. -/
def name : CodedKind → String
  | .typeDefOrRef => "TypeDefOrRef"
  | .hasConstant => "HasConstant"
  | .hasCustomAttribute => "HasCustomAttribute"
  | .hasFieldMarshal => "HasFieldMarshal"
  | .hasDeclSecurity => "HasDeclSecurity"
  | .memberRefParent => "MemberRefParent"
  | .hasSemantics => "HasSemantics"
  | .methodDefOrRef => "MethodDefOrRef"
  | .memberForwarded => "MemberForwarded"
  | .implementation => "Implementation"
  | .customAttributeType => "CustomAttributeType"
  | .resolutionScope => "ResolutionScope"
  | .typeOrMethodDef => "TypeOrMethodDef"

instance : ToString CodedKind := ⟨name⟩

end CodedKind

end ApiCensus
