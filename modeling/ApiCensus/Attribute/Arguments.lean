/-
  The named arguments of attributes.

  * `NamedArgument`: which field or property is set; the value is passed over.
  * `Assembly.eachNamedArgument`: visits the named arguments of an attribute in order.
  * `Assembly.namedArguments`: the list of them, up to the first fault.

  The fixed arguments stand before the named ones without a mark between them, so their widths
  come from the signature of the constructor, and the width of an enum from a look-up. Where a
  width is unknown, the reading ends without a fault.
-/
import ApiCensus.Attribute.ElementKind
import ApiCensus.Attribute.EnumLookup
import ApiCensus.Signature.Skip

namespace ApiCensus

/-- What a named argument sets. -/
inductive ArgumentTarget where
  | field | property
  deriving Repr, DecidableEq, Inhabited

/-- The name of a target. -/
def ArgumentTarget.name : ArgumentTarget → String
  | .field => "Field"
  | .property => "Property"

/-- A named argument. -/
structure NamedArgument where
  target : ArgumentTarget
  /-- The name of the field or property, `none` for the null string. -/
  name : Option String
  deriving Repr, DecidableEq, Inhabited

namespace Assembly

open Signature Signature.Decoding

variable {σ : Type} (assembly : Assembly) (lookup : EnumLookup σ)

/-! ## Types in the signature of the constructor -/

/-- The kind of an enum, if its width is known. -/
def enumKind? (underlying : Option Primitive) : Option ElementKind :=
  match ElementKind.ofUnderlying underlying with
  | .unknown => none
  | kind => some kind

/-- The kind of an enum of another assembly, if the look-up knows it. -/
def foreignKind (type : TypeRefRow) : Decoding σ (Option ElementKind) := do
  match ← assembly.enumNameOf type with
  | some name => do
    let underlying ← build (ExceptT.lift (lookup name))
    pure (enumKind? underlying)
  | none => pure none

/-- The kind of a referenced type: the type of types, or an enum. -/
def referencedKind (type : TypeRefRow) : Decoding σ (Option ElementKind) := do
  let isSystem : Bool := (← assembly.text type.nameSpace) == "System"
  let isType : Bool ← if isSystem then do pure ((← assembly.text type.name) == "Type") else pure false
  if isType then pure (some .typeName) else assembly.foreignKind lookup type

/-- The kind of a named type, if values of it can be held and their width is known. -/
def nominalKind (token : Token) : Decoding σ (Option ElementKind) := do
  match token.table? with
  | some .typeRef => do
    let type ← assembly.row TypeRefRow token.row
    assembly.referencedKind lookup type
  | some .typeDef => do
    let type ← assembly.row TypeDefRow token.row
    pure (enumKind? (← assembly.underlyingType type))
  | _ => pure none

/-- The type of a parameter, given what is done for an array and for a generic parameter. -/
def parameterBy (onVector onGeneric : Decoding σ (Option ArgumentType)) :
    Decoding σ (Option ArgumentType) := do
  let code ← read Cursor.byte
  match ElementKind.ofCode? code with
  | some kind => pure (some (.element kind))
  | none =>
    match Element.ofCode? code with
    | some (.primitive .object) => pure (some (.element .boxed))
    | some .classType | some .valueType => do
      let token ← read Compressed.token
      let kind ← assembly.nominalKind lookup token
      pure (kind.map .element)
    | some .vector => onVector
    | some .typeParameter => onGeneric
    | _ => pure none

/-- An array, given how its elements are read. The elements of an empty array are never looked
    at, so elements of unknown width do no harm yet. -/
def vectorOf (element : Decoding σ (Option ArgumentType)) : Decoding σ (Option ArgumentType) := do
  match ← element with
  | some (.element kind) => pure (some (.vector kind))
  | some (.vector _) => pure none
  | none => pure (some (.vector .unknown))

/-- A generic parameter: the argument of that number, given the cursor before the count of the
    arguments and how an argument is read. -/
def argumentOf (context : Cursor) (argument : Decoding σ (Option ArgumentType)) :
    Decoding σ (Option ArgumentType) := do
  let (count, context) ← aside context (read Compressed.number)
  let index ← read Compressed.number
  if count ≤ index then
    Attempt.malformed (.genericParameter index count)
  else
    let ((), context) ← aside context (read (skipEach skip index))
    let (type, _) ← aside context argument
    pure type

/-- An array inside an array. -/
def nestedVector : Decoding σ (Option ArgumentType) :=
  Attempt.malformed .nestedParameterArray

/-- A generic parameter where there are no arguments. -/
def strayParameter : Decoding σ (Option ArgumentType) :=
  Attempt.malformed .genericParameterOutside

/-- The type of the elements of an array, outside of a generic instantiation. -/
def elementType : Decoding σ (Option ArgumentType) :=
  assembly.parameterBy lookup nestedVector strayParameter

/-- The type of a parameter, outside of a generic instantiation. -/
def plainType : Decoding σ (Option ArgumentType) :=
  assembly.parameterBy lookup (vectorOf (assembly.elementType lookup)) strayParameter

/-- The type of the elements of an array, inside a generic instantiation. -/
def elementTypeWithin (context : Cursor) : Decoding σ (Option ArgumentType) :=
  assembly.parameterBy lookup nestedVector (argumentOf context (assembly.elementType lookup))

/-- The type of a parameter, inside a generic instantiation. -/
def typeWithin (context : Cursor) : Decoding σ (Option ArgumentType) :=
  assembly.parameterBy lookup (vectorOf (assembly.elementTypeWithin lookup context))
    (argumentOf context (assembly.plainType lookup))

/-- The type of the next parameter of a constructor, given the cursor before the arguments of
    the generic type that the constructor belongs to, if it belongs to one. `none` if its
    width is unknown. -/
def parameterType : Option Cursor → Decoding σ (Option ArgumentType)
  | none => assembly.plainType lookup
  | some context => assembly.typeWithin lookup context

/-- The cursor before the arguments of the generic type that a constructor belongs to. -/
def genericContext (constructor : MemberRefRow) : Except Fault (Option Cursor) :=
  if constructor.parent.table = .typeSpec then do
    let type ← assembly.row TypeSpecRow constructor.parent.row
    if type.signature = 0 then
      pure none
    else
      let blob ← assembly.blob type.signature
      let enter : Attempt Cursor (Option Cursor) := do
        let element ← Compressed.number
        if element = Element.instantiation.code.toNat then
          let code ← Compressed.number
          if isNominalCode code then
            let _ ← Compressed.token
            pure (some (← get))
          else
            Attempt.malformed (.attributeInstantiation code)
        else
          pure none
      enter.result { data := blob }
  else
    pure none

/-! ## Values -/

/-- The byte before the type of the elements of an array. -/
def vectorTag : UInt8 := 0x1D

/-- The kind that a tag stands for; the name of an enum follows its tag. -/
def kindOfTag (tag : UInt8) : Decoding σ ElementKind :=
  match ElementKind.ofCode? tag with
  | some kind => pure kind
  | none =>
    match tag.toNat with
    | 0x50 => pure .typeName
    | 0x51 => pure .boxed
    | 0x55 => do
      let text ← read SerializedText.read
      match text.bind EnumName.parse? with
      | some name => do
        let underlying ← build (ExceptT.lift (lookup name))
        pure (ElementKind.ofUnderlying underlying)
      | none => pure .unknown
    | _ => Attempt.malformed (.valueTag tag)

/-- The type that stands before a named or boxed value. -/
def taggedType : Decoding σ ArgumentType := do
  let tag ← read Cursor.byte
  if tag = vectorTag then
    let tag ← read Cursor.byte
    if tag = vectorTag then
      Attempt.malformed .nestedValueArray
    else
      .vector <$> kindOfTag lookup tag
  else
    .element <$> kindOfTag lookup tag

/-- Passes over a value that is not boxed. The answer is whether its width is known. -/
def skipPlain (kind : ElementKind) : Decoding σ Bool :=
  match kind with
  | .typeName | .primitive .string => do
    read SerializedText.skip
    pure true
  | _ =>
    match kind.width? with
    | some width => do
      read (Cursor.advance width)
      pure true
    | none => pure false

/-- Passes over `count` things, up to one of unknown width. -/
def skipAll (step : Decoding σ Bool) : Nat → Decoding σ Bool
  | 0 => pure true
  | count + 1 => do
    if ← step then skipAll step count else pure false

/-- Passes over an array: a length, which is -1 for the null array, and the elements. -/
def skipVector (element : Decoding σ Bool) : Decoding σ Bool := do
  let count := LittleEndian.signed 4 (← read (Cursor.number 4))
  if count < -1 then
    Attempt.malformed (.arrayLength count)
  else
    skipAll element count.toNat

/-- Passes over a value, given how many boxes may be inside each other. A box holds its own
    type, and no box directly. -/
def skipElement : Nat → ElementKind → Decoding σ Bool
  | boxes, .boxed =>
    match boxes with
    | 0 => throw .outOfBounds
    | boxes + 1 => do
      match ← taggedType lookup with
      | .element .boxed => Attempt.malformed .boxedObject
      | .element kind => skipPlain kind
      | .vector kind => skipVector (skipElement boxes kind)
  | _, kind => skipPlain kind

/-- Passes over an argument. Each box takes a byte at least, so there are no more boxes inside
    each other than bytes. -/
def skipArgument (type : ArgumentType) : Decoding σ Bool := do
  let boxes := (← get).1.remaining + 1
  match type with
  | .element kind => skipElement lookup boxes kind
  | .vector kind => skipVector (skipElement lookup boxes kind)

/-- Passes over the arguments of `count` parameters, up to one of unknown width, given the
    cursor before the types of the parameters. -/
def skipFixed (context : Option Cursor) : Nat → Cursor → Decoding σ Bool
  | 0, _ => pure true
  | count + 1, signature => do
    let (type, signature) ← aside signature (assembly.parameterType lookup context)
    match type with
    | none => pure false
    | some type => do
      if ← skipArgument lookup type then skipFixed context count signature else pure false

/-! ## Named arguments -/

/-- The number that attribute values start with. -/
def attributeProlog : Nat := 1

/-- The header of the signature of a constructor and its number of parameters. -/
def constructorParameters (constructor : MemberRefRow) : Attempt Cursor Nat := do
  let header ← Signature.header
  if header.kind = .method ∧ !header.isGeneric then
    let count ← Compressed.number
    let returnType ← Cursor.byte
    if returnType = Primitive.void.code then
      pure count
    else
      Attempt.malformed (.constructorReturn constructor.token)
  else
    Attempt.malformed (.constructorHeader constructor.token header)

/-- The number of named arguments: what stands before it is passed over. `none` if an argument
    before it has an unknown width. -/
def namedCount (row : CustomAttributeRow) (constructor : MemberRefRow)
    (context : Option Cursor) : Decoding σ (Option Nat) := do
  if (← read (Cursor.number 2)) ≠ attributeProlog then
    Attempt.malformed (.attributeProlog row.token)
  else
    let blob ← assembly.blob constructor.signature
    let (count, signature) ← aside { data := blob } (read (constructorParameters constructor))
    if ← assembly.skipFixed lookup context count signature then
      some <$> read (Cursor.number 2)
    else
      pure none

/-- What the first byte of a named argument says. -/
def argumentTarget (tag : UInt8) : Decoding σ ArgumentTarget :=
  match tag.toNat with
  | 0x53 => pure .field
  | 0x54 => pure .property
  | _ => Attempt.malformed (.namedArgumentTag tag)

/-- The next named argument, `none` if the width of its value is unknown. -/
def namedArgument : Decoding σ (Option NamedArgument) := do
  let target ← argumentTarget (← read Cursor.byte)
  let type ← taggedType lookup
  if type = .element .unknown then
    pure none
  else
    let name ← read SerializedText.read
    if ← skipArgument lookup type then pure (some { target, name }) else pure none

/-- Visits up to `count` named arguments. -/
def visitNamed (visit : NamedArgument → Attempt σ Unit) : Nat → Decoding σ Unit
  | 0 => pure ()
  | count + 1 => do
    match ← namedArgument lookup with
    | none => pure ()
    | some argument => do
      build (visit argument)
      visitNamed visit count

/-- Visits the named arguments of an attribute in order. An attribute whose constructor is not
    a referenced member has none. -/
def eachNamedArgument (row : CustomAttributeRow) (visit : NamedArgument → Attempt σ Unit) :
    Attempt σ Unit :=
  if row.constructor.table = .memberRef then do
    let constructor ← assembly.row MemberRefRow row.constructor.row
    let context ← assembly.genericContext constructor
    let value ← assembly.blob row.value
    let walk : Decoding σ Unit := do
      match ← assembly.namedCount lookup row constructor context with
      | none => pure ()
      | some count => visitNamed lookup visit count
    walk.onBytes value
  else
    pure ()

/-- The look-up for a computation that keeps something besides its state. -/
def lookupBeside {τ : Type} (lookup : EnumLookup σ) : EnumLookup (σ × τ) :=
  fun name (state, kept) =>
    let (type, state) := lookup name state
    (type, (state, kept))

/-- Puts an argument behind those that were found before it. -/
def collect (argument : NamedArgument) : Attempt (σ × Array NamedArgument) Unit :=
  modify fun (state, found) => (state, found.push argument)

/-- The named arguments of an attribute, and the fault that ends them, if one does. -/
def namedArguments (row : CustomAttributeRow) :
    StateM σ (List NamedArgument × Option Fault) := fun state =>
  match assembly.eachNamedArgument (lookupBeside lookup) row collect (state, #[]) with
  | (.ok (), (state, found)) => ((found.toList, none), state)
  | (.error fault, (state, found)) => ((found.toList, some fault), state)

end Assembly

end ApiCensus
