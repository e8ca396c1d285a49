/-
  The bytes of the arguments of an attribute (ECMA-335, II.23.3).

  * `TypeTag`: what stands before a boxed or named value to tell its type.
  * `AttributeValue`: the values, `AttributeValue.encode` their bytes.
  * `AttributeValue.HasType`: which values a type has, given the answers about enums.
  * `AttributeValue.isReadable`: no part of the value has an unknown width.
  * `NamedValue`, `FixedValue`: a named argument with its value; a fixed one with the type of
    its parameter.
  * `Assembly.IsParameter`: the parameters of constructors that attributes can hold values for.
  * `Assembly.IsEncoded`: a row of an attribute that has given fixed and named arguments.
-/
import ApiCensus.Attribute.Arguments
import ApiCensus.Proofs.Signature.Encoding

namespace ApiCensus

/-! ## Tags -/

/-- A type that is written with a value: the type of a single value. -/
inductive ElementTag where
  | primitive (type : Primitive)
  | typeName
  | object
  | enum (name : Option String)
  deriving DecidableEq

/-- A type that is written with a value. -/
inductive TypeTag where
  | element (tag : ElementTag)
  | vector (tag : ElementTag)
  deriving DecidableEq

namespace ElementTag

/-- The first byte of a tag. -/
def code : ElementTag → UInt8
  | .primitive type => type.code
  | .typeName => 0x50
  | .object => 0x51
  | .enum _ => 0x55

/-- The bytes behind the first one. -/
def tail : ElementTag → List UInt8
  | .enum name => SerializedText.encode name
  | _ => []

/-- The kind of the values, given the types that underlie enums. -/
def kind (answers : EnumName → Option Primitive) : ElementTag → ElementKind
  | .primitive type => .primitive type
  | .typeName => .typeName
  | .object => .boxed
  | .enum name => .ofUnderlying ((name.bind EnumName.parse?).bind answers)

/-- A primitive type is one of those from `Boolean` to `String`, and the name of an enum has a
    length that can be written. -/
def WellFormed : ElementTag → Prop
  | .primitive type => Primitive.boolean.code ≤ type.code ∧ type.code ≤ Primitive.string.code
  | .enum name => SerializedText.Fits name
  | _ => True

instance : (tag : ElementTag) → Decidable tag.WellFormed
  | .primitive type =>
    inferInstanceAs (Decidable
      (Primitive.boolean.code ≤ type.code ∧ type.code ≤ Primitive.string.code))
  | .enum name => inferInstanceAs (Decidable (SerializedText.Fits name))
  | .typeName | .object => inferInstanceAs (Decidable True)

end ElementTag

namespace TypeTag

/-- The tag of a single value, or of the elements of an array. -/
def inner : TypeTag → ElementTag
  | .element tag | .vector tag => tag

/-- The bytes of a tag. -/
def encode : TypeTag → List UInt8
  | .element tag => tag.code :: tag.tail
  | .vector tag => Assembly.vectorTag :: tag.code :: tag.tail

/-- The type of the values. -/
def type (answers : EnumName → Option Primitive) : TypeTag → ArgumentType
  | .element tag => .element (tag.kind answers)
  | .vector tag => .vector (tag.kind answers)

end TypeTag

/-! ## Values -/

/-- The value of an argument. -/
inductive AttributeValue where
  /-- A number, a truth value, a character, or an enum. -/
  | number (bytes : List UInt8)
  /-- A string, or the name of a type. -/
  | text (content : Option String)
  /-- An enum of which the width is unknown. -/
  | hidden (bytes : List UInt8)
  /-- A value with its type. -/
  | boxed (tag : TypeTag) (value : AttributeValue)
  /-- The null array. -/
  | null
  /-- An array. -/
  | vector (elements : List AttributeValue)

namespace AttributeValue

mutual

/-- The bytes of a value. -/
def encode : AttributeValue → List UInt8
  | .number bytes | .hidden bytes => bytes
  | .text content => SerializedText.encode content
  | .boxed tag value => tag.encode ++ encode value
  | .null => LittleEndian.encode 4 0xFFFFFFFF
  | .vector elements => LittleEndian.encode 4 elements.length ++ encodeAll elements

/-- The bytes of several values. -/
def encodeAll : List AttributeValue → List UInt8
  | [] => []
  | value :: values => encode value ++ encodeAll values

end

mutual

/-- No part of the value has an unknown width. -/
def isReadable : AttributeValue → Bool
  | .hidden _ => false
  | .boxed _ value => isReadable value
  | .vector elements => allReadable elements
  | _ => true

/-- No part of several values has an unknown width. -/
def allReadable : List AttributeValue → Bool
  | [] => true
  | value :: values => isReadable value && allReadable values

end

mutual

/-- How many boxes lie inside each other. -/
def depth : AttributeValue → Nat
  | .boxed _ value => depth value + 1
  | .vector elements => depthOfAll elements
  | _ => 0

/-- How many boxes lie inside each other in one of several values. -/
def depthOfAll : List AttributeValue → Nat
  | [] => 0
  | value :: values => max (depth value) (depthOfAll values)

end

/-- The values of a type, given the types that underlie enums. -/
inductive HasType (answers : EnumName → Option Primitive) : AttributeValue → ArgumentType → Prop
  | number {type bytes} : (ElementKind.primitive type).width? = some bytes.length →
      HasType answers (.number bytes) (.element (.primitive type))
  | string {content} : SerializedText.Fits content →
      HasType answers (.text content) (.element (.primitive .string))
  | typeName {content} : SerializedText.Fits content →
      HasType answers (.text content) (.element .typeName)
  | hidden {bytes} : HasType answers (.hidden bytes) (.element .unknown)
  | boxed {tag value} : tag.inner.WellFormed → tag ≠ .element .object →
      HasType answers value (tag.type answers) → HasType answers (.boxed tag value) (.element .boxed)
  | null {kind} : HasType answers .null (.vector kind)
  | vector {kind elements} : elements.length < 0x80000000 →
      (∀ element ∈ elements, HasType answers element (.element kind)) →
      HasType answers (.vector elements) (.vector kind)

theorem encodeAll_eq_flatMap (values : List AttributeValue) :
    encodeAll values = values.flatMap encode := by
  induction values with
  | nil => rfl
  | cons value values ih => rw [encodeAll, ih, List.flatMap_cons]

theorem allReadable_iff {values : List AttributeValue} :
    allReadable values = true ↔ ∀ value ∈ values, value.isReadable = true := by
  induction values with
  | nil => simp [allReadable]
  | cons value values ih => simp only [allReadable, Bool.and_eq_true, ih, List.forall_mem_cons]

theorem depthOfAll_le {values : List AttributeValue} {bound : Nat} :
    depthOfAll values ≤ bound ↔ ∀ value ∈ values, value.depth ≤ bound := by
  induction values with
  | nil => simp [depthOfAll]
  | cons value values ih => simp only [depthOfAll, Nat.max_le, List.forall_mem_cons, ih]

end AttributeValue

/-- A named argument with its value. -/
structure NamedValue where
  target : ArgumentTarget
  tag : TypeTag
  name : Option String
  value : AttributeValue

namespace NamedValue

/-- The byte that says what is set. -/
def targetCode : ArgumentTarget → UInt8
  | .field => 0x53
  | .property => 0x54

/-- The bytes of a named argument. -/
def encode (argument : NamedValue) : List UInt8 :=
  targetCode argument.target
    :: (argument.tag.encode ++ (SerializedText.encode argument.name ++ argument.value.encode))

/-- What an attribute says it sets. -/
def argument (argument : NamedValue) : NamedArgument :=
  { target := argument.target, name := argument.name }

/-- The value is of the type that stands before it, and the lengths can be written. -/
structure WellFormed (answers : EnumName → Option Primitive) (argument : NamedValue) : Prop where
  tag : argument.tag.inner.WellFormed
  name : SerializedText.Fits argument.name
  value : argument.value.HasType answers (argument.tag.type answers)

end NamedValue

/-- A fixed argument: the type of the parameter in the signature, and the value. -/
structure FixedValue where
  parameter : SignatureType
  value : AttributeValue

/-! ## Attributes -/

/-- The signature of a constructor: it is not generic and returns nothing. -/
def constructorSignature (header : Signature.Header) (fixed : List FixedValue) :
    MethodSignature SignatureType where
  header := header
  genericCount := 0
  requiredCount := fixed.length
  returnType := .primitive .void
  parameters := fixed.map FixedValue.parameter

/-- The value of an attribute: the fixed arguments, the number of named ones, and these. -/
def encodeAttribute (fixed : List FixedValue) (named : List NamedValue) : List UInt8 :=
  LittleEndian.encode 2 Assembly.attributeProlog
    ++ (fixed.flatMap (fun argument => argument.value.encode)
    ++ (LittleEndian.encode 2 named.length ++ named.flatMap NamedValue.encode))

namespace Assembly

/-- The types of the values of a parameter, given the types that underlie enums of other
    assemblies: a primitive type, an object, the type of types, an enum, or an array of them. -/
inductive IsParameter (assembly : Assembly) (answers : EnumName → Option Primitive) :
    SignatureType → ArgumentType → Prop
  | primitive {type} : Primitive.boolean.code ≤ type.code → type.code ≤ Primitive.string.code →
      IsParameter assembly answers (.primitive type) (.element (.primitive type))
  | object : IsParameter assembly answers (.primitive .object) (.element .boxed)
  | systemType {token form type} : form ≠ .unstated → token.isIn .typeRef →
      assembly.row TypeRefRow token.row = .ok type →
      assembly.text type.nameSpace = .ok "System" → assembly.text type.name = .ok "Type" →
      IsParameter assembly answers (.reference token form) (.element .typeName)
  | foreignEnum {token form type nameSpace name enum underlying} :
      form ≠ .unstated → token.isIn .typeRef → assembly.row TypeRefRow token.row = .ok type →
      assembly.text type.nameSpace = .ok nameSpace → assembly.text type.name = .ok name →
      ¬ (nameSpace = "System" ∧ name = "Type") → assembly.enumNameOf type = .ok (some enum) →
      answers enum = some underlying → underlying.isIntegral →
      IsParameter assembly answers (.reference token form) (.element (.primitive underlying))
  | localEnum {token form type underlying} : form ≠ .unstated → token.isIn .typeDef →
      assembly.row TypeDefRow token.row = .ok type →
      assembly.underlyingType type = .ok (some underlying) → underlying.isIntegral →
      IsParameter assembly answers (.definition token form) (.element (.primitive underlying))
  | vector {element kind} : IsParameter assembly answers element (.element kind) →
      IsParameter assembly answers (.vector element) (.vector kind)

/-- A row of an attribute of which the constructor has these parameters and the value these
    arguments. -/
structure IsEncoded (assembly : Assembly) (answers : EnumName → Option Primitive)
    (row : CustomAttributeRow) (constructor : MemberRefRow) (header : Signature.Header)
    (fixed : List FixedValue) (named : List NamedValue) : Prop where
  isMember : row.constructor.table = .memberRef
  isConstructor : assembly.row MemberRefRow row.constructor.row = .ok constructor
  context : ∃ context, assembly.genericContext constructor = .ok context
  isMethod : header.kind = .method
  notGeneric : header.isGeneric = false
  parameters : Compressed.IsNumber fixed.length
  signature : assembly.blob constructor.signature =
    .ok (SignatureType.encodeMethod (constructorSignature header fixed)).toByteArray
  fixedTyped : ∀ argument ∈ fixed, ∃ type, assembly.IsParameter answers argument.parameter type ∧
    argument.value.HasType answers type
  namedTyped : ∀ argument ∈ named, argument.WellFormed answers
  namedCount : named.length < 0x10000
  value : assembly.blob row.value = .ok (encodeAttribute fixed named).toByteArray

end Assembly

end ApiCensus
