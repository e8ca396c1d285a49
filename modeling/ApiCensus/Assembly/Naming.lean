/-
  The names of what an assembly refers to.

  * `Assembly.typeRefName`, `Assembly.entityName`: the names of types of other assemblies.
  * `Assembly.typeRefId`, `Assembly.memberRefId`: their documentation IDs, and those of
    members: `T:`, `M:` or `F:` and a name.
  * `Assembly.instantiatedType`: the generic type that a type specification instantiates.
  * `Assembly.attributeType`, `Assembly.isNamed`: what an attribute is.
  * `Assembly.frameworkMoniker`: the framework that the assembly declares.

  Only what is found in another assembly has a name here.
-/
import ApiCensus.Assembly.Documentation

namespace ApiCensus.Assembly

variable (assembly : Assembly)

/-! ## Types -/

/-- The name of a type that another assembly holds at the outermost level. -/
def outerName (type : TypeRefRow) : Except Fault String := do
  let name ← assembly.text type.name
  let nameSpace ← assembly.text type.nameSpace
  pure (qualify nameSpace (replaceChar '+' '.' name))

/-- The name of a referenced type, if another assembly holds it at the outermost level or
    directly inside such a type. -/
def typeRefName (type : TypeRefRow) : Except Fault (Option String) :=
  match type.scope.table with
  | .typeRef => do
    let outer ← assembly.row TypeRefRow type.scope.row
    if outer.scope.table = .assemblyRef then do
      let outerName ← assembly.outerName outer
      let name ← assembly.text type.name
      pure (some (outerName ++ "." ++ name))
    else
      pure none
  | .assemblyRef => some <$> assembly.outerName type
  | _ => pure none

/-- The type of this or another assembly that a type specification instantiates. -/
def instantiatedType (type : TypeSpecRow) : Except Fault (Option Token) := do
  let blob ← assembly.blob type.signature
  let read : Attempt Cursor (Option Token) := do
    let element ← Compressed.number
    if element = Signature.Element.instantiation.code.toNat then
      let code ← Compressed.number
      if Signature.isNominalCode code then
        let target ← Compressed.token
        if target.isIn .typeDef || target.isIn .typeRef then pure (some target) else pure none
      else
        Attempt.malformed (.instantiatedElement type.token code)
    else
      pure none
  read.result { data := blob }

/-- The name of the type that a token points at, directly or through a type specification. -/
def entityName (token : Token) : Except Fault (Option String) :=
  match token.table? with
  | some .typeRef => do
    assembly.typeRefName (← assembly.row TypeRefRow token.row)
  | some .typeSpec => do
    let type ← assembly.row TypeSpecRow token.row
    match (← assembly.instantiatedType type).filter (·.isIn .typeRef) with
    | some target => do assembly.typeRefName (← assembly.row TypeRefRow target.row)
    | none => pure none
  | _ => pure none

/-- The documentation ID of a referenced type. -/
def typeRefId (type : TypeRefRow) : Except Fault (Option String) := do
  pure ((← assembly.typeRefName type).map ("T:" ++ ·))

/-! ## Members -/

/-- The type that a referenced member is documented with. -/
def documentationParent (member : MemberRefRow) : Except Fault (Option Token) :=
  if member.parent.table = .typeSpec then do
    assembly.instantiatedType (← assembly.row TypeSpecRow member.parent.row)
  else
    pure (some member.parent.token)

/-- The list of parameters of a method; nothing is written if there are none. -/
def parameterList (parameters : List String) : String :=
  match parameters with
  | [] => ""
  | _ => "(" ++ String.intercalate "," parameters ++ ")"

/-- The mark and the parameters of a member with a given signature. -/
def memberShape (member : MemberRefRow) (blob : ByteArray) (header : Signature.Header) :
    Except Fault (String × String) :=
  match header.kind with
  | .method => do
    let signature ← assembly.documentedMethod blob
    pure ("M:", parameterList signature.parameters)
  | .field => pure ("F:", "")
  | kind => throw (.malformed (.memberSignature member.token kind))

/-- The number of generic parameters of a member, which follows the header of its
    signature; nothing is written if there are none. -/
def genericArity (blob : ByteArray) (header : Signature.Header) : Except Fault String :=
  if header.isGeneric then do
    let count ← Compressed.number.result { data := blob, pos := 1 }
    pure ("\x60\x60" ++ toString count)
  else
    pure ""

/-- The documentation ID of a referenced member of a type of another assembly. -/
def memberRefId (member : MemberRefRow) : Except Fault (Option String) :=
  if member.parent.table = .typeRef ∨ member.parent.table = .typeSpec then do
    match ← assembly.entityName member.parent.token with
    | none => pure none
    | some parentName => do
      let blob ← assembly.blob member.signature
      let header ← Signature.header.result { data := blob }
      let (mark, parameters) ← assembly.memberShape member blob header
      let arity ← genericArity blob header
      let name ← assembly.text member.name
      pure (some (mark ++ parentName ++ "." ++ replaceChar '.' '#' name ++ arity ++ parameters))
  else
    pure none

/-! ## Attributes -/

/-- The type of an attribute, if its constructor is a referenced member. -/
def attributeType (row : CustomAttributeRow) : Except Fault (Option Token) :=
  if row.constructor.table = .memberRef then do
    let constructor ← assembly.row MemberRefRow row.constructor.row
    pure (some constructor.parent.token)
  else
    pure none

/-- The namespace and the name that a token shows, in the string heap: a type of another
    assembly at the outermost level, or a type of this one that is not inside another. -/
def plainName (token : Token) : Except Fault (Option (Nat × Nat)) :=
  match token.table? with
  | some .typeRef => do
    let type ← assembly.row TypeRefRow token.row
    if type.scope.table = .assemblyRef then pure (some (type.nameSpace, type.name))
    else pure none
  | some .typeDef => do
    let type ← assembly.row TypeDefRow token.row
    if type.hasNestedVisibility then pure none else pure (some (type.nameSpace, type.name))
  | _ => pure none

/-- A token points at a type with one of the given names in a namespace. -/
def isNamedAny (token : Token) (nameSpace : String) (names : List String) :
    Except Fault Bool :=
  if names.isEmpty then
    pure false
  else do
    match ← assembly.plainName token with
    | none => pure false
    | some (foundNameSpace, foundName) => do
      if (← assembly.text foundNameSpace) = nameSpace then
        pure (names.contains (← assembly.text foundName))
      else
        pure false

/-- An attribute has a given type, which may be a type of this assembly if `allowsLocal`. -/
def isNamed (row : CustomAttributeRow) (nameSpace name : String) (allowsLocal : Bool) :
    Except Fault Bool := do
  match ← assembly.attributeType row with
  | none => pure false
  | some type =>
    if type.isIn .typeDef && !allowsLocal then pure false
    else assembly.isNamedAny type nameSpace [name]

/-! ## The framework -/

/-- The token of the assembly itself. -/
def self : Token := Token.ofRow .assembly 1

/-- The string that an attribute value begins with, if the value is well formed so far. -/
def firstString? (blob : ByteArray) : Option String :=
  let read : Attempt Cursor (Option String) := do
    let prolog ← Cursor.number 2
    if prolog = 1 then SerializedText.read else pure none
  match read.result { data := blob } with
  | .ok text => text
  | .error _ => none

/-- The moniker among the first of the given attributes that declares a framework. -/
def monikerAmong : List CustomAttributeRow → Except Fault (Option String)
  | [] => pure none
  | row :: rest => do
    if ← assembly.isNamed row "System.Runtime.Versioning" "TargetFrameworkAttribute" true then
      pure (firstString? (← assembly.blob row.value))
    else
      monikerAmong rest

/-- The moniker of the framework that the assembly declares. -/
def frameworkMoniker : Except Fault (Option String) := do
  assembly.monikerAmong (← assembly.attributesOf self)

end ApiCensus.Assembly
