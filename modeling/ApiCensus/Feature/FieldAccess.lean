/-
  The fields of other assemblies that methods read and write.

  * `Collector.fieldAccess`: reports them. Taking the address of a field is neither.
-/
import ApiCensus.Feature.Collector

namespace ApiCensus

/-- What an instruction does with a field. -/
def Opcode.fieldFact? (opcode : Opcode) : Option (ApiKey → Fact) :=
  if opcode = loadField ∨ opcode = loadStaticField then some Fact.readsField
  else if opcode = storeField ∨ opcode = storeStaticField then some Fact.writesField
  else none

namespace Assembly

variable (assembly : Assembly)

/-- Reports what an instruction does with a field. -/
def reportAccess (instruction : Instruction) : Collecting Unit := do
  match instruction.token with
  | none => pure ()
  | some token =>
    match ← assembly.externalMember token with
    | none => pure ()
    | some member =>
      if ← assembly.isFieldReference member then
        match instruction.opcode.fieldFact? with
        | some fact => Collecting.reportSome fact (← assembly.memberRefId member)
        | none => pure ()

/-- Reports what a method does with fields. -/
def reportAccesses (method : MethodDefRow) : Collecting Unit := do
  (← Collecting.noticing (assembly.instructionsOf method)).forM assembly.reportAccess

end Assembly

/-- Looks for fields that are read and written. -/
def Collector.fieldAccess : Collector where
  name := "FieldAccess"
  version := 4
  collect assembly _ := assembly.eachMethod assembly.reportAccesses

end ApiCensus
