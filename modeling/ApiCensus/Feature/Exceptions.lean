/-
  The exceptions of other assemblies that methods throw and catch.

  * `Instruction.thrown`: the constructors of what code throws as soon as it is made.
  * `Collector.exceptions`: reports them, and the types that are caught.
-/
import ApiCensus.Feature.Collector

namespace ApiCensus

/-- The constructor, if an instruction that makes an object is followed by one that throws. -/
def Instruction.thrownBy (maker thrower : Instruction) : Option Token :=
  if maker.opcode = Opcode.newObject ∧ thrower.opcode = Opcode.throwObject then maker.token
  else none

/-- The constructors of what is thrown as soon as it is made; instructions that do nothing do
    not count. -/
def Instruction.thrown (code : List Instruction) : List Token :=
  let code := code.filter fun instruction => instruction.opcode != Opcode.nop
  (code.zip (code.drop 1)).filterMap fun (maker, thrower) => thrownBy maker thrower

namespace Assembly

variable (assembly : Assembly)

/-- Reports a constructor whose object is thrown. -/
def reportThrow (constructor : Token) : Collecting Unit := do
  match ← assembly.externalMember constructor with
  | none => pure ()
  | some member =>
    if ← assembly.isFieldReference member then pure ()
    else Collecting.reportSome Fact.throws (← assembly.memberRefId member)

/-- Reports a type that is caught. -/
def reportCatch (type : Token) : Collecting Unit := do
  if type.isNil then
    pure ()
  else
    let target ←
      if type.isIn .typeSpec then do
        let row ← assembly.row TypeSpecRow type.row
        assembly.instantiatedType row
      else
        pure (some type)
    Collecting.reportSome Fact.catches (← assembly.referencedTypeId target)

/-- Reports what a method throws and catches. -/
def reportExceptions (method : MethodDefRow) : Collecting Unit := do
  match ← Collecting.noticing (assembly.bodyOf method) with
  | none => pure ()
  | some body => do
    (Instruction.thrown (Instruction.ofCode body.code)).forM assembly.reportThrow
    (body.clauses.filterMap ExceptionClause.classToken).forM assembly.reportCatch

end Assembly

/-- Looks for exceptions that are thrown and caught. -/
def Collector.exceptions : Collector where
  name := "Exception"
  version := 4
  collect assembly _ := assembly.eachMethod assembly.reportExceptions

end ApiCensus
