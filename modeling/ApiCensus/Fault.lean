/-
  Why reading an assembly fails.

  * `Malformation`: each way in which data that is there can be wrong.
  * `Fault`: a malformation, or one of the other reasons to stop.
  * `Malformation.message`, `Fault.describe`: their wording.
  * `Attempt`: a computation that may fail and keeps its state when it does.
  * `Checked`: a result in words, which is missing where the program stops.
-/
import ApiCensus.Metadata.CodedKind
import ApiCensus.Metadata.Token
import ApiCensus.Signature.Header
import ApiCensus.Text.Utf8

namespace ApiCensus

/-- Data that is there, but wrong. -/
inductive Malformation where
  /-- No compressed number begins with the byte. -/
  | compressedNumber (lead : UInt8)
  /-- The low bits of a compressed token name no table. -/
  | compressedToken (value : Nat)
  /-- The bytes of a serialized string from `start` on are not text. -/
  | serializedText (start : Nat) (flaw : Utf8.Flaw)
  /-- No terminated text starts at the index of the string heap. -/
  | heapString (index : Nat)
  /-- Index 0 of the GUID heap. -/
  | nullGuid
  /-- The metadata does not start with its signature. -/
  | metadataSignature (found : Nat)
  /-- The metadata has no stream, or too many. -/
  | streamCount (count : Nat)
  /-- A stream ends beyond what 32 bits can address. -/
  | streamExtent (offset size : Nat)
  /-- The name of a stream does not end where it has to. -/
  | streamName
  /-- The runtime header claims to be too short. -/
  | runtimeHeaderSize (claimed : Nat)
  /-- The runtime header points at no metadata. -/
  | noMetadata
  /-- The table stream declares no table. -/
  | noTables
  /-- A table has no such row. -/
  | rowNumber (row : Nat) (table : TableId) (count : Nat)
  /-- The tag of a coded index selects no table. -/
  | codedTag (tag : Nat) (kind : CodedKind)
  /-- A section ends beyond what 32 bits can address. -/
  | sectionExtent (address size : Nat)
  /-- A relative address that 32 bits do not hold. -/
  | addressTooLarge (address : Nat)
  /-- A relative address in no section. -/
  | addressUnmapped (address : Nat)
  /-- A method body of no bytes. -/
  | emptyBody
  /-- A fat method header that claims to be too short. -/
  | fatHeaderSize (claimed : Nat)
  /-- A method header that is neither tiny nor fat. -/
  | bodyFormat (lead : UInt8)
  /-- A section behind a method body that claims to be shorter than its header. -/
  | dataSectionSize (claimed : Nat)
  /-- A generic instantiation without arguments. -/
  | noTypeArguments
  /-- A byte that begins no type. -/
  | elementType (code : UInt8)
  /-- A type handle that points into a table without types. -/
  | typeHandle (token : Token)
  /-- An array without dimensions. -/
  | arrayRank
  /-- An array with more sizes than dimensions. -/
  | arraySizes (sizes rank : Nat)
  /-- An array with more lower bounds than dimensions. -/
  | arrayLowerBounds (bounds rank : Nat)
  /-- A field signature with the header of something else. -/
  | fieldHeader (header : Signature.Header)
  /-- A method or property signature with the header of something else. -/
  | methodHeader (header : Signature.Header)
  /-- A second mark between fixed and variable parameters. -/
  | secondSentinel
  /-- A member reference with a signature of no member. -/
  | memberSignature (member : Token) (kind : Signature.Kind)
  /-- A member reference with a signature of no bytes. -/
  | emptyMemberSignature (member : Token)
  /-- A type specification that instantiates no class and no value type. -/
  | instantiatedElement (specification : Token) (code : Nat)
  /-- An attribute value without its leading number. -/
  | attributeProlog (row : Token)
  /-- An attribute constructor whose signature is of no plain method. -/
  | constructorHeader (constructor : Token) (header : Signature.Header)
  /-- An attribute constructor with a return type. -/
  | constructorReturn (constructor : Token)
  /-- An attribute type that instantiates no class and no value type. -/
  | attributeInstantiation (code : Nat)
  /-- A parameter of an attribute constructor that is an array of arrays. -/
  | nestedParameterArray
  /-- A generic parameter in the constructor of an attribute type that has none. -/
  | genericParameterOutside
  /-- A generic parameter beyond the arguments. -/
  | genericParameter (index count : Nat)
  /-- An attribute value tagged as an array of arrays. -/
  | nestedValueArray
  /-- A byte that tags no attribute value. -/
  | valueTag (code : UInt8)
  /-- An array in an attribute value with a negative length. -/
  | arrayLength (length : Int)
  /-- A boxed value whose type is again a box. -/
  | boxedObject
  /-- A named argument that is neither a field nor a property. -/
  | namedArgumentTag (code : UInt8)
  /-- A byte that begins no type that can be passed over. -/
  | skippedElement (code : UInt8)
  deriving Repr, DecidableEq, Inhabited

/-- The wording of a malformation. -/
def Malformation.message : Malformation → String
  | .compressedNumber lead => s!"Invalid compressed uint - {lead.toNat}"
  | .compressedToken value => s!"Invalid compressed token - {value}"
  | .serializedText start flaw => s!"Invalid UTF-8 string at offset {start}: {flaw.message}"
  | .heapString index => s!"Invalid string at index - {index}"
  | .nullGuid => "GUID index 0 is the null GUID"
  | .metadataSignature found => s!"CIL_HEADER_MAGIC does not match - {found}"
  | .streamCount count => s!"Invalid stream count - {count}"
  | .streamExtent offset size =>
    s!"Stream offset and size cause integer overflow - {offset} + {size}"
  | .streamName => "Stream header name is not terminated"
  | .runtimeHeaderSize claimed => s!"Invalid CLR header size: expected 72, got {claimed}"
  | .noMetadata => "Metadata directory is empty"
  | .noTables => "No valid rows in any of the tables"
  | .rowNumber row table count => s!"Row {row} out of range for {table} ({count} rows)"
  | .codedTag tag kind => s!"Invalid tag {tag} for coded index {kind}"
  | .sectionExtent address size =>
    s!"Section malformed, causing integer overflow - {address} + {size}"
  | .addressTooLarge address => s!"RVA too large to fit in u32: {address}"
  | .addressUnmapped address => s!"RVA could not be converted to offset - {address}"
  | .emptyBody => "Provided data for body parsing is empty"
  | .fatHeaderSize claimed => s!"Fat method header claims {claimed} bytes"
  | .bodyFormat lead => s!"MethodHeader is neither FAT nor TINY - {lead.toNat}"
  | .dataSectionSize claimed => s!"Method data section of {claimed} bytes"
  | .noTypeArguments => "GENERICINST without arguments"
  | .elementType code => s!"Unsupported ELEMENT_TYPE - {code.toNat}"
  | .typeHandle token => s!"Invalid type handle - {token}"
  | .arrayRank => "Array of rank 0"
  | .arraySizes sizes rank => s!"Array with {sizes} sizes for rank {rank}"
  | .arrayLowerBounds bounds rank => s!"Array with {bounds} lower bounds for rank {rank}"
  | .fieldHeader header => s!"SignatureField - invalid start - {header.byte.toNat}"
  | .methodHeader header => s!"Expected a method or property signature - {header.byte.toNat}"
  | .secondSentinel => "Second vararg sentinel"
  | .memberSignature member kind => s!"MemberRef {member} has signature kind {kind.name}"
  | .emptyMemberSignature member => s!"MemberRef {member} has an empty signature"
  | .instantiatedElement specification code =>
    s!"TypeSpec {specification} instantiates element type {code}"
  | .attributeProlog row => s!"Custom attribute {row} has an invalid prolog"
  | .constructorHeader constructor header =>
    s!"Attribute constructor {constructor} has signature header {header.byte.toNat}"
  | .constructorReturn constructor =>
    s!"Attribute constructor {constructor} does not return void"
  | .attributeInstantiation code => s!"Generic instantiation over element type {code}"
  | .nestedParameterArray => "Nested arrays in attribute signature"
  | .genericParameterOutside => "Generic parameter outside of a generic instantiation"
  | .genericParameter index count => s!"Generic parameter {index} of {count} arguments"
  | .nestedValueArray => "Nested arrays in attribute value"
  | .valueTag code => s!"Invalid serialization type - {code.toNat}"
  | .arrayLength length => s!"Invalid array length - {length}"
  | .boxedObject => "Boxed value tagged as object"
  | .namedArgumentTag code => s!"Invalid named argument kind - {code.toNat}"
  | .skippedElement code => s!"Cannot skip element type - {code.toNat}"

/-- Why an image that can be read is no assembly. -/
inductive NotAssembly where
  /-- The image has no optional header. -/
  | noOptionalHeader
  /-- The image has no runtime header. -/
  | noRuntimeHeader
  /-- The metadata has no table stream. -/
  | noTableStream
  /-- The metadata has no string heap. -/
  | noStringHeap
  /-- The tables declare no assembly. -/
  | noAssemblyRow
  deriving Repr, DecidableEq, Inhabited

/-- The wording of a reason. -/
def NotAssembly.message : NotAssembly → String
  | .noOptionalHeader => "no optional header"
  | .noRuntimeHeader => "no CLR runtime header directory"
  | .noTableStream => "no tables stream"
  | .noStringHeap => "no #Strings stream"
  | .noAssemblyRow => "no Assembly row"

/-- A reason to stop. -/
inductive Fault where
  /-- Data is there, but wrong. -/
  | malformed (cause : Malformation)
  /-- Data is missing: a read goes beyond the end. -/
  | outOfBounds
  /-- The image holds no assembly. -/
  | notAssembly (reason : NotAssembly)
  /-- The metadata declares a table that the standard does not know. -/
  | unknownTable
  /-- The image has no bytes. -/
  | emptyImage
  /-- The bytes are no image. -/
  | badImage
  /-- Types nest deeper than `limit` allows. -/
  | tooDeep (limit : Nat)
  /-- A file cannot be read. -/
  | unreadableFile
  /-- A directory cannot be listed. -/
  | unreadableDirectory
  /-- A manifest is not well formed. -/
  | badManifest
  /-- A failure that the source of a file reports in its own words. -/
  | reported (message : String)
  deriving Repr, DecidableEq, Inhabited

namespace Fault

/-- The wording of a fault where it is part of a longer text. -/
def describe : Fault → String
  | .malformed cause => s!"Malformed: {cause.message}"
  | .outOfBounds => "Out of Bound read would have occurred!"
  | .notAssembly reason => s!"Not a managed assembly - {reason.message}"
  | .unknownTable => "This file type is not supported"
  | .emptyImage => "Provided input was empty"
  | .badImage => "Not a portable executable image"
  | .tooDeep limit => s!"Reach the maximum recursion level allowed - {limit}"
  | .unreadableFile => "The file cannot be read"
  | .unreadableDirectory => "The directory cannot be listed"
  | .badManifest => "The manifest is not well formed"
  | .reported message => message

end Fault

/-- A computation that may fail, on a state that it keeps either way. -/
abbrev Attempt (σ : Type) := ExceptT Fault (StateM σ)

namespace Attempt

variable {σ τ α : Type}

/-- Stops with a malformation. -/
def malformed (cause : Malformation) : Attempt σ α :=
  throw (.malformed cause)

/-- Carries on with a result that needs no state. -/
def ofExcept (result : Except Fault α) : Attempt σ α :=
  fun state => (result, state)

/-- The computation on a part of a state. -/
def onPart (part : σ → τ) (replace : σ → τ → σ) (attempt : Attempt τ α) : Attempt σ α :=
  fun state =>
    let (result, rest) := attempt (part state)
    (result, replace state rest)

/-- The result of a computation whose state is not needed any more. -/
def result (attempt : Attempt σ α) (state : σ) : Except Fault α :=
  (attempt state).1

/-- The results of `count` runs of a computation, up to the first failure. -/
def repeated (attempt : Attempt σ α) : Nat → Attempt σ (List α)
  | 0 => pure []
  | count + 1 => do
    let first ← attempt
    let rest ← repeated attempt count
    pure (first :: rest)

end Attempt

/-- A result in words. It is missing where a number is too large for its word, where the bounds
    of a range are out of order, and where a byte string does not reach as far: there the program
    stops. -/
abbrev Checked (α : Type) := ExceptT Fault Option α

namespace Checked

variable {α : Type}

/-- The program stops. -/
def missing : Checked α :=
  ExceptT.mk none

/-- One more than the largest word of 64 bits. -/
def wordBound : Nat := 0x10000000000000000

/-- A number as a word of 64 bits. -/
def word (value : Nat) : Checked Nat :=
  if value < wordBound then pure value else missing

end Checked

end ApiCensus
