/-
  Whether an assembly is compiled with nullable references.

  * `Collector.nullability`: reports it. Compilers mark it with attributes; for frameworks
    that do not define them, the assembly defines them itself.
-/
import ApiCensus.Feature.Collector

namespace ApiCensus

/-- The namespace of the attributes that compilers put into assemblies. -/
def compilerServices : String := "System.Runtime.CompilerServices"

/-- The attributes that mark nullable references. -/
def nullableAttributes : List String :=
  ["NullableAttribute", "NullableContextAttribute", "NullablePublicOnlyAttribute"]

/-- The first version of the frameworks that define the attributes. -/
def nullableSince : FrameworkVersion := { major := 8 }

/-- A token points at one of the attributes. -/
def Assembly.marksNullable (assembly : Assembly) (token : Token) : Except Fault Bool :=
  assembly.isNamedAny token compilerServices nullableAttributes

/-- Looks for marks of nullable references. -/
def Collector.nullability : Collector where
  name := "UsesNullableReferenceTypes"
  version := 3
  collect assembly known := do
    let referenced ← ((assembly.table TypeRefRow).rows.anyM fun row => do
      assembly.marksNullable (← row).token : Except Fault Bool)
    if referenced then
      Collecting.report .usesNullableReferences
    else if known.any (·.isNetCoreAtLeast nullableSince) then
      pure ()
    else
      Collecting.reportIfAny .usesNullableReferences assembly.definitions fun row => do
        assembly.marksNullable (← row).token

end ApiCensus
