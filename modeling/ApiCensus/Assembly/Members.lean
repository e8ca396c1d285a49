/-
  The members of types, their accessors and their bodies.

  * `Assembly.fieldsOf`, `methodsOf`, `propertiesOf`, `eventsOf`: the members that a type
    declares, in order.
  * `Assembly.propertyAccessors`, `Assembly.eventAccessors`: the methods behind them.
  * `Assembly.bodyOf`: the body of a method; one that cannot be read is recorded and passed
    over.
-/
import ApiCensus.Assembly.Basic
import ApiCensus.Diagnostics
import ApiCensus.Method.Body
import ApiCensus.Method.Instruction

namespace ApiCensus

/-- The accessors of a property, as method rows. -/
structure PropertyAccessors where
  getter : Option Nat := none
  setter : Option Nat := none
  others : List Nat := []
  deriving Repr, DecidableEq, Inhabited

namespace PropertyAccessors

/-- Every accessor. -/
def all (accessors : PropertyAccessors) : List Nat :=
  accessors.getter.toList ++ accessors.setter.toList ++ accessors.others

/-- Takes a row into account; a later getter or setter replaces an earlier one. -/
def add (accessors : PropertyAccessors) (row : MethodSemanticsRow) : PropertyAccessors :=
  if row.semantics.testBit 1 then { accessors with getter := some row.method }
  else if row.semantics.testBit 0 then { accessors with setter := some row.method }
  else if row.semantics.testBit 2 then
    { accessors with others := accessors.others ++ [row.method] }
  else accessors

end PropertyAccessors

/-- The accessors of an event, as method rows. -/
structure EventAccessors where
  adder : Option Nat := none
  remover : Option Nat := none
  raiser : Option Nat := none
  others : List Nat := []
  deriving Repr, DecidableEq, Inhabited

namespace EventAccessors

/-- Every accessor. -/
def all (accessors : EventAccessors) : List Nat :=
  accessors.adder.toList ++ accessors.remover.toList ++ accessors.raiser.toList
    ++ accessors.others

/-- Takes a row into account; a later method for the same purpose replaces an earlier one. -/
def add (accessors : EventAccessors) (row : MethodSemanticsRow) : EventAccessors :=
  if row.semantics.testBit 3 then { accessors with adder := some row.method }
  else if row.semantics.testBit 4 then { accessors with remover := some row.method }
  else if row.semantics.testBit 5 then { accessors with raiser := some row.method }
  else if row.semantics.testBit 2 then
    { accessors with others := accessors.others ++ [row.method] }
  else accessors

end EventAccessors

namespace Assembly

variable (assembly : Assembly)

/-! ## Members -/

/-- The run of list entries of a type: it ends where that of the next type starts. -/
def runOfType (type : TypeDefRow) (first : TypeDefRow → Nat) (bound : Nat) :
    Except Fault Run := do
  let stop ←
    if type.rid < assembly.rowCount .typeDef then
      pure (first (← assembly.row TypeDefRow (type.rid + 1)))
    else
      pure bound
  pure (Run.clamp { start := first type, stop } bound)

/-- The members of a run of list entries. The entries are in a table of their own if the
    assembly has one, else an entry is a member itself. -/
def membersOf (α : Type) [MetadataRow α] (ε : Type) [MetadataRow ε] (target : ε → Nat)
    (run : Run) : Except Fault (List α) :=
  run.toList.mapM fun index =>
    if assembly.rowCount (MetadataRow.table ε) = 0 then
      assembly.row α index
    else do
      let entry ← assembly.row ε index
      assembly.row α (target entry)

/-- The fields that a type declares. -/
def fieldsOf (type : TypeDefRow) : Except Fault (List FieldRow) := do
  let run ← assembly.runOfType type (·.fieldList) (assembly.entryCount .fieldPtr .field + 1)
  assembly.membersOf FieldRow FieldPtrRow (·.field) run

/-- The methods that a type declares. -/
def methodsOf (type : TypeDefRow) : Except Fault (List MethodDefRow) := do
  let run ←
    assembly.runOfType type (·.methodList) (assembly.entryCount .methodPtr .methodDef + 1)
  assembly.membersOf MethodDefRow MethodPtrRow (·.method) run

/-- The properties that a type declares. -/
def propertiesOf (type : TypeDefRow) : Except Fault (List PropertyRow) :=
  match assembly.owners.properties[type.rid]? with
  | some run => assembly.membersOf PropertyRow PropertyPtrRow (·.property) run
  | none => .ok []

/-- The events that a type declares. -/
def eventsOf (type : TypeDefRow) : Except Fault (List EventRow) :=
  match assembly.owners.events[type.rid]? with
  | some run => assembly.membersOf EventRow EventPtrRow (·.event) run
  | none => .ok []

/-- The accessors of a property. -/
def propertyAccessors (property : PropertyRow) : Except Fault PropertyAccessors := do
  pure ((← assembly.semanticsOf property.token).foldl PropertyAccessors.add {})

/-- The accessors of an event. -/
def eventAccessors (event : EventRow) : Except Fault EventAccessors := do
  pure ((← assembly.semanticsOf event.token).foldl EventAccessors.add {})

/-! ## Bodies -/

/-- The body at a relative address. -/
def bodyAt (address : Nat) : Except Fault MethodBody := do
  let offset ← assembly.image.offset address
  let data := assembly.image.data
  if data.size < offset then throw .outOfBounds
  else MethodBody.ofBytes (data.extract offset data.size)

/-- The record of a body that cannot be read. -/
def brokenBody (method : MethodDefRow) (fault : Fault) : Diagnostic :=
  { severity := .warning, subject := .methodBody
    message := s!"Malformed: {method.token}: {fault.describe}" }

/-- The body of a method, `none` if the method has none or if it cannot be read. The latter is
    recorded. -/
def bodyOf (method : MethodDefRow) : StateM Diagnostics (Option MethodBody) := do
  if method.hasBody then
    match assembly.bodyAt method.address with
    | .ok body => pure (some body)
    | .error fault => do
      modify (·.push (brokenBody method fault))
      pure none
  else
    pure none

/-- The instructions of a method, none if it has no body that can be read. -/
def instructionsOf (method : MethodDefRow) : StateM Diagnostics (List Instruction) := do
  match ← assembly.bodyOf method with
  | some body => pure (Instruction.ofCode body.code)
  | none => pure []

end Assembly

end ApiCensus
