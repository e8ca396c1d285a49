/-
  Every collector.

  * `Collector.all`: the collectors, in the order in which they run.
-/
import ApiCensus.Feature.Bases
import ApiCensus.Feature.DeclaredFramework
import ApiCensus.Feature.Exceptions
import ApiCensus.Feature.FieldAccess
import ApiCensus.Feature.Interfaces
import ApiCensus.Feature.References

namespace ApiCensus

/-- The collectors, in the order in which they run. -/
def Collector.all : List Collector :=
  [.defaultImplementations, .defaultMembers, .referenceFields, .referenceStructs,
   .virtualStaticMembers, .bases, .exceptions, .fieldAccess, .framework, .nullability]

end ApiCensus
