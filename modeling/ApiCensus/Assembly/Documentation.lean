/-
  The text of types in documentation IDs, such as `System.Collections.Generic.List{System.Int32}`.

  * `Assembly.documentedType`: the text of a type signature.
  * `Assembly.documentedField`, `Assembly.documentedMethod`: the texts of whole signatures.

  A type that another signature describes is written as that signature. Signatures reached in
  this way and types inside types count as levels, of which there are at most `maxDepth`.
-/
import ApiCensus.Assembly.Basic
import ApiCensus.Signature.Decoder
import ApiCensus.Text.Qualified

namespace ApiCensus.Assembly

variable (assembly : Assembly)

/-- The text of a type of this assembly: the types around it stand in front of it. -/
def definitionText : Nat → TypeDefRow → Except Fault String
  | depth, type => do
    let name ← assembly.text type.name
    match assembly.declaringType? type.rid with
    | some enclosing => do
      let outer ← assembly.row TypeDefRow enclosing
      match depth with
      | 0 => throw (.tooDeep Signature.maxDepth)
      | depth + 1 => do
        let outerText ← definitionText depth outer
        pure (outerText ++ "." ++ name)
    | none => do
      pure (qualify (← assembly.text type.nameSpace) name)

/-- The text of a type of another assembly: the types around it stand in front of it, the
    outermost one without the number of its parameters. -/
def referenceText : Nat → TypeRefRow → Except Fault String
  | depth, type => do
    let name ← assembly.text type.name
    if type.scope.table = .typeRef ∧ type.scope.row ≠ 0 then do
      let outer ← assembly.row TypeRefRow type.scope.row
      match depth with
      | 0 => throw (.tooDeep Signature.maxDepth)
      | depth + 1 => do
        let outerText ← referenceText depth outer
        pure (outerText ++ "." ++ name)
    else
      pure (qualify (← assembly.text type.nameSpace) (replaceChar '+' '.' (withoutArity name)))

/-- Makes the text of a type with `depth` levels left, given how a further signature is
    written. -/
def documentation (depth : Nat) (specified : ByteArray → Except Fault String) :
    TypeBuilder Unit String where
  primitive type := pure ("System." ++ type.name)
  definition token _ := do
    assembly.definitionText depth (← assembly.row TypeDefRow token.row)
  reference token _ := do
    assembly.referenceText depth (← assembly.row TypeRefRow token.row)
  specification token _ := do
    let row ← assembly.row TypeSpecRow token.row
    specified (← assembly.blob row.signature)
  vector element := pure (element ++ "[]")
  array element shape :=
    pure (element ++ "[" ++ String.ofList (List.replicate (shape.rank - 1) ',') ++ "]")
  byReference element := pure (element ++ "@")
  pointer element := pure (element ++ "*")
  pinned element := pure (element ++ "&")
  instantiation generic arguments :=
    pure (generic ++ "\x7b" ++ String.intercalate "," arguments ++ "\x7d")
  typeParameter index := pure ("\x60" ++ toString index)
  methodParameter index := pure ("\x60\x60" ++ toString index)
  modified _ unmodified _ := pure unmodified
  functionPointer signature :=
    pure ("function " ++ signature.returnType ++ " ("
      ++ String.intercalate "," signature.parameters ++ ")")

/-- The text of a type signature with `depth` levels left. -/
def typeText : Nat → ByteArray → Except Fault String
  | 0, _ => .error (.tooDeep Signature.maxDepth)
  | depth + 1, blob =>
    ((Signature.type (assembly.documentation depth (typeText depth))).onBytes blob).result ()

/-- The text of a type signature. -/
def documentedType (blob : ByteArray) : Except Fault String :=
  assembly.typeText Signature.maxDepth blob

/-- The builder for a signature that is read first: it is a level itself. -/
def outermost : TypeBuilder Unit String :=
  assembly.documentation (Signature.maxDepth - 1) (assembly.typeText (Signature.maxDepth - 1))

/-- The text of the type in a field signature. -/
def documentedField (blob : ByteArray) : Except Fault String :=
  ((Signature.fieldType assembly.outermost).onBytes blob).result ()

/-- The texts of the types in a method or property signature. -/
def documentedMethod (blob : ByteArray) : Except Fault (MethodSignature String) :=
  ((Signature.method assembly.outermost).onBytes blob).result ()

end ApiCensus.Assembly
