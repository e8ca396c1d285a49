/-
  The tables of assembly metadata.

  * `TableId`: the tables, in the order of their numbers.
  * `TableId.ofNumber?_number`: a table is found again by its number.
-/

namespace ApiCensus

/-- A metadata table. The constructors stand in the order of the table numbers. -/
inductive TableId where
  | module | typeRef | typeDef | fieldPtr | field | methodPtr | methodDef | paramPtr | param
  | interfaceImpl | memberRef | constant | customAttribute | fieldMarshal | declSecurity
  | classLayout | fieldLayout | standAloneSig | eventMap | eventPtr | event | propertyMap
  | propertyPtr | property | methodSemantics | methodImpl | moduleRef | typeSpec | implMap
  | fieldRVA | encLog | encMap | assembly | assemblyProcessor | assemblyOS | assemblyRef
  | assemblyRefProcessor | assemblyRefOS | file | exportedType | manifestResource | nestedClass
  | genericParam | methodSpec | genericParamConstraint
  deriving Repr, DecidableEq, Hashable, Inhabited

namespace TableId

/-- Every table, in the order of the numbers. -/
def all : List TableId :=
  [.module, .typeRef, .typeDef, .fieldPtr, .field, .methodPtr, .methodDef, .paramPtr, .param,
   .interfaceImpl, .memberRef, .constant, .customAttribute, .fieldMarshal, .declSecurity,
   .classLayout, .fieldLayout, .standAloneSig, .eventMap, .eventPtr, .event, .propertyMap,
   .propertyPtr, .property, .methodSemantics, .methodImpl, .moduleRef, .typeSpec, .implMap,
   .fieldRVA, .encLog, .encMap, .assembly, .assemblyProcessor, .assemblyOS, .assemblyRef,
   .assemblyRefProcessor, .assemblyRefOS, .file, .exportedType, .manifestResource,
   .nestedClass, .genericParam, .methodSpec, .genericParamConstraint]

/-- The number of tables. -/
def count : Nat := 45

/-- The number of a table. -/
def number (table : TableId) : Nat :=
  table.ctorIdx

/-- The table with a given number. -/
def ofNumber? (n : Nat) : Option TableId :=
  if n < count then some (TableId.ofNat n) else none

theorem number_lt (table : TableId) : table.number < count := by
  cases table <;> decide

/-- A table is found again by its number. -/
@[simp] theorem ofNumber?_number (table : TableId) : ofNumber? table.number = some table := by
  cases table <;> rfl

/-- A table has the number that it was found by. -/
theorem number_of_ofNumber? {n : Nat} {table : TableId} (h : ofNumber? n = some table) :
    table.number = n := by
  have hall : ∀ n < count, (TableId.ofNat n).number = n := by decide
  obtain ⟨hn, hfound⟩ := Option.ite_none_right_eq_some.1 h
  rw [← Option.some.inj hfound, hall n hn]

/-- The name of a table. -/
def name : TableId → String
  | .module => "Module"
  | .typeRef => "TypeRef"
  | .typeDef => "TypeDef"
  | .fieldPtr => "FieldPtr"
  | .field => "Field"
  | .methodPtr => "MethodPtr"
  | .methodDef => "MethodDef"
  | .paramPtr => "ParamPtr"
  | .param => "Param"
  | .interfaceImpl => "InterfaceImpl"
  | .memberRef => "MemberRef"
  | .constant => "Constant"
  | .customAttribute => "CustomAttribute"
  | .fieldMarshal => "FieldMarshal"
  | .declSecurity => "DeclSecurity"
  | .classLayout => "ClassLayout"
  | .fieldLayout => "FieldLayout"
  | .standAloneSig => "StandAloneSig"
  | .eventMap => "EventMap"
  | .eventPtr => "EventPtr"
  | .event => "Event"
  | .propertyMap => "PropertyMap"
  | .propertyPtr => "PropertyPtr"
  | .property => "Property"
  | .methodSemantics => "MethodSemantics"
  | .methodImpl => "MethodImpl"
  | .moduleRef => "ModuleRef"
  | .typeSpec => "TypeSpec"
  | .implMap => "ImplMap"
  | .fieldRVA => "FieldRVA"
  | .encLog => "EncLog"
  | .encMap => "EncMap"
  | .assembly => "Assembly"
  | .assemblyProcessor => "AssemblyProcessor"
  | .assemblyOS => "AssemblyOS"
  | .assemblyRef => "AssemblyRef"
  | .assemblyRefProcessor => "AssemblyRefProcessor"
  | .assemblyRefOS => "AssemblyRefOS"
  | .file => "File"
  | .exportedType => "ExportedType"
  | .manifestResource => "ManifestResource"
  | .nestedClass => "NestedClass"
  | .genericParam => "GenericParam"
  | .methodSpec => "MethodSpec"
  | .genericParamConstraint => "GenericParamConstraint"

instance : ToString TableId := ⟨name⟩

end TableId

end ApiCensus
