/-
  The types of other assemblies that types derive from or implement.

  * `Collector.bases`: reports them; a generic type counts as such, without its arguments.
-/
import ApiCensus.Feature.Collector

namespace ApiCensus

/-- Reports a base type or an interface, if another assembly defines it. -/
def Assembly.reportBase (assembly : Assembly) (base : CodedIndex) : Collecting Unit := do
  if base.isNil then
    pure ()
  else
    let target ←
      if base.table = .typeSpec then do
        let type ← assembly.row TypeSpecRow base.row
        assembly.instantiatedType type
      else
        pure (some base.token)
    Collecting.reportSome Fact.derivesFrom (← assembly.referencedTypeId target)

/-- Looks for the types that types derive from or implement. -/
def Collector.bases : Collector where
  name := "DerivesFrom"
  version := 4
  collect assembly _ :=
    assembly.eachDefinition fun type => do
      assembly.reportBase type.base
      (← assembly.interfacesOf type.rid).forM fun row => assembly.reportBase row.interface

end ApiCensus
