/-
  The enums that an assembly defines.

  * `Assembly.underlyingType`: the type that underlies a type of the assembly, if it is an
    enum.
  * `Assembly.enumIndex`: the underlying types of all enums by their names.
-/
import ApiCensus.Assembly.Members
import ApiCensus.Signature.Decoder
import ApiCensus.Text.Qualified

namespace ApiCensus

/-- Underlying types by the names of the enums. -/
abbrev EnumIndex := Std.HashMap String Primitive

namespace Assembly

variable (assembly : Assembly)

/-- The field that holds the value of an enum. -/
def valueField : String := "value__"

/-- The primitive type of a field with a given signature. -/
def fieldPrimitive (signature : ByteArray) : Except Fault (Option Primitive) :=
  let read : Attempt Cursor (Option Primitive) := do
    let header ← Signature.header
    if header.kind = .field then
      pure (Primitive.ofCode? (← Cursor.byte))
    else
      pure none
  read.result { data := signature }

/-- The integral type of the first of the given fields that holds the value of an enum. -/
def valueType : List FieldRow → Except Fault (Option Primitive)
  | [] => pure none
  | field :: rest => do
    if (← assembly.text field.name) = valueField then
      let type ← fieldPrimitive (← assembly.blob field.signature)
      pure (type.filter Primitive.isIntegral)
    else
      valueType rest

/-- The type that underlies a type of this assembly, if it is an enum. -/
def underlyingType (type : TypeDefRow) : Except Fault (Option Primitive) := do
  assembly.valueType (← assembly.fieldsOf type)

/-- The name of a type behind its namespace. -/
def definedName (type : TypeDefRow) : Except Fault String := do
  let nameSpace ← assembly.text type.nameSpace
  let name ← assembly.text type.name
  pure (qualify nameSpace name)

/-- The name that reflection gives to a type at the outermost level or directly inside such
    a type. -/
def reflectionName (type : TypeDefRow) : Except Fault (Option String) := do
  let name ← assembly.text type.name
  match assembly.declaringType? type.rid with
  | some enclosing => do
    let outer ← assembly.row TypeDefRow enclosing
    if (assembly.declaringType? outer.rid).isSome then
      pure none
    else
      pure (some ((← assembly.definedName outer) ++ "+" ++ name))
  | none => some <$> assembly.definedName type

/-- Puts a type into the index if it is an enum with a name. -/
def indexType (index : EnumIndex) (row : Except Fault TypeDefRow) : Except Fault EnumIndex := do
  let type ← row
  match ← assembly.underlyingType type with
  | none => pure index
  | some underlying =>
    match ← assembly.reflectionName type with
    | none => pure index
    | some name => pure (index.insert name underlying)

/-- The underlying types of the enums of this assembly; of two enums with one name the later
    counts. -/
def enumIndex : Except Fault EnumIndex :=
  (assembly.table TypeDefRow).rows.foldlM assembly.indexType ∅

end Assembly

end ApiCensus
