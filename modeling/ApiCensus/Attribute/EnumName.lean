/-
  The names of enums that other assemblies define.

  * `EnumName`: where an enum is defined, as far as that is known, and what it is called.
  * `EnumName.parse?`: reads a name such as `Colors.Shade, Colors, Culture=neutral`.
  * `Assembly.enumNameOf`: the name of a referenced type.
-/
import ApiCensus.Assembly.Basic
import ApiCensus.Bytes.Sha1
import ApiCensus.Text.Blank
import ApiCensus.Text.Numeral
import ApiCensus.Text.Qualified
import ApiCensus.Text.Split

namespace ApiCensus

/-- Where an enum is defined and what it is called. -/
structure EnumName where
  assembly : String
  /-- The culture of the assembly, `none` for the neutral one. -/
  culture : Option String
  /-- The token of the public key of the assembly. -/
  keyToken : Option (List UInt8)
  /-- The namespace, possibly empty. -/
  nameSpace : String
  /-- The name of the outermost type. -/
  name : String
  /-- The name of the enum if it is inside that type. -/
  nested : Option String
  deriving Repr, DecidableEq, Inhabited

namespace EnumName

/-- The name without the assembly. -/
def fullName (name : EnumName) : String :=
  qualify name.nameSpace name.name ++ name.nested.elim "" ("+" ++ ·)

/-- The name with the assembly. -/
protected def toString (name : EnumName) : String :=
  name.fullName ++ ", " ++ name.assembly

instance : ToString EnumName := ⟨EnumName.toString⟩

/-! ## Reading -/

/-- A name with such a character in it is not that of a plain type. -/
def isForbidden (c : Char) : Bool :=
  c == '[' || c == ']' || c == '*' || c == '&' || c == '\x60' || c == '\\'

/-- The outermost type and the type inside it. -/
def nesting? (type : List Char) : Option (List Char × Option (List Char)) :=
  match Split.fields '+' type with
  | [outer] => some (outer, none)
  | [outer, inner] => if inner.isEmpty then none else some (outer, some inner)
  | _ => none

/-- The value of two hexadecimal digits; a plus sign may stand for the first one. -/
def keyByte? (high low : Char) : Option UInt8 :=
  (Numeral.unsigned? Hex.digit? 16 0x100 [high, low]).map UInt8.ofNat

/-- The bytes that pairs of digits stand for. -/
def keyBytes? : List Char → Option (List UInt8)
  | [] => some []
  | high :: low :: rest => do
    let byte ← keyByte? high low
    let bytes ← keyBytes? rest
    pure (byte :: bytes)
  | [_] => none

/-- The token of a public key: eight bytes. -/
def keyToken? (text : List Char) : Option (List UInt8) :=
  if text.length = 16 then keyBytes? text else none

/-- The texts are equal up to the case of ASCII letters. -/
def equalsIgnoringCase (a b : List Char) : Bool :=
  a.map Char.toLower == b.map Char.toLower

/-- What the properties behind the assembly say. -/
structure Properties where
  culture : Option String := none
  keyToken : Option (List UInt8) := none

/-- Takes a property into account; a later one replaces an earlier one. -/
def Properties.add (properties : Properties) (text : List Char) : Properties :=
  match Split.atFirst? '=' text with
  | none => properties
  | some (key, value) =>
    let value := Blank.trim value
    if Blank.trim key = "Culture".toList then
      if equalsIgnoringCase value "neutral".toList then properties
      else { properties with culture := some (String.ofList value) }
    else if Blank.trim key = "PublicKeyToken".toList then
      { properties with keyToken := keyToken? value }
    else properties

/-- The namespace and the name of a type. -/
def splitNamespace (type : List Char) : List Char × List Char :=
  (Split.atLast? '.' type).getD ([], type)

/-- Reads a type, a comma, an assembly and properties of the assembly. Generic types, arrays,
    pointers and types at a deeper level have no name. -/
def parse? (text : String) : Option EnumName := do
  let (typePart, assemblyPart) ← Split.atFirst? ',' text.toList
  let type := Blank.trim typePart
  if type.isEmpty || type.any isForbidden then none
  else
    let (outer, nested) ← nesting? type
    let (nameSpace, name) := splitNamespace outer
    if name.isEmpty then none
    else
      match (Split.fields ',' assemblyPart).map Blank.trim with
      | [] => none
      | assembly :: properties =>
        if assembly.isEmpty then none
        else
          let found := properties.foldl Properties.add {}
          some
            { assembly := String.ofList assembly
              culture := found.culture
              keyToken := found.keyToken
              nameSpace := String.ofList nameSpace
              name := String.ofList name
              nested := nested.map String.ofList }

end EnumName

/-! ## Referenced types -/

/-- The number of bytes of the token of a public key. -/
def keyTokenSize : Nat := 8

/-- The token of a public key: the end of its hash, last byte first. -/
def publicKeyToken (key : ByteArray) : List UInt8 :=
  (Sha1.digest key).reverse.take keyTokenSize

/-- The token that a reference to an assembly gives, directly or with the whole key. -/
def referencedKeyToken (row : AssemblyRefRow) (key : ByteArray) : Option (List UInt8) :=
  if row.hasFullPublicKey && !key.isEmpty then some (publicKeyToken key)
  else if key.size = keyTokenSize then some key.toList
  else none

/-- The name of a type of another assembly, if it is at the outermost level there or directly
    inside such a type. -/
def Assembly.enumNameOf (assembly : Assembly) (type : TypeRefRow) :
    Except Fault (Option EnumName) := do
  let (outer, nested) ←
    if type.scope.table = .typeRef then do
      let outer ← assembly.row TypeRefRow type.scope.row
      pure (outer, some (← assembly.text type.name))
    else
      pure (type, none)
  if outer.scope.table = .assemblyRef then do
    let reference ← assembly.row AssemblyRefRow outer.scope.row
    let culture ← assembly.text reference.culture
    let key ← assembly.blob reference.publicKeyOrToken
    pure (some
      { assembly := ← assembly.text reference.name
        culture := if culture.isEmpty then none else some culture
        keyToken := referencedKeyToken reference key
        nameSpace := ← assembly.text outer.nameSpace
        name := ← assembly.text outer.name
        nested })
  else
    pure none

end ApiCensus
