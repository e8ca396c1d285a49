/-
  Interfaces with members of their own making.

  * `Collector.defaultImplementations`: methods of interfaces of other assemblies that
    interfaces implement.
  * `Collector.defaultMembers`: interfaces that have methods with bodies.
  * `Collector.virtualStaticMembers`: interfaces that have virtual static methods.
-/
import ApiCensus.Feature.Collector

namespace ApiCensus

namespace Assembly

variable (assembly : Assembly)

/-- Reports a method that another assembly declares and an interface implements. -/
def reportImplementation (row : MethodImplRow) : Collecting Unit := do
  if row.declaration.table = .memberRef then
    let member ← assembly.row MemberRefRow row.declaration.row
    Collecting.reportSome Fact.implementsByDefault (← assembly.memberRefId member)

/-- A type is an interface with a method of a given kind. -/
def isInterfaceWith (p : MethodDefRow → Bool) (row : Except Fault TypeDefRow) :
    Except Fault Bool := do
  let type ← row
  if type.isInterface then pure ((← assembly.methodsOf type).any p) else pure false

end Assembly

/-- Looks for methods of other assemblies that interfaces implement. -/
def Collector.defaultImplementations : Collector where
  name := "DefaultInterfaceImplementation"
  version := 4
  collect assembly _ :=
    assembly.eachDefinition fun type => do
      if type.isInterface then
        (← assembly.methodImplsOf type.rid).forM assembly.reportImplementation

/-- Looks for an interface that has a method with a body. -/
def Collector.defaultMembers : Collector where
  name := "DefinesAnyDefaultInterfaceMembers"
  version := 2
  collect assembly _ :=
    Collecting.reportIfAny .definesDefaultMembers assembly.definitions
      (assembly.isInterfaceWith fun method => method.address != 0)

/-- Looks for an interface that has a virtual static method. -/
def Collector.virtualStaticMembers : Collector where
  name := "DefinesAnyVirtualStaticInterfaceMembers"
  version := 2
  collect assembly _ :=
    Collecting.reportIfAny .definesVirtualStaticMembers assembly.definitions
      (assembly.isInterfaceWith fun method => method.isStatic && method.isVirtual)

end ApiCensus
