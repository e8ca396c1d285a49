/-
  Compressed numbers and tokens, and the strings of attribute values.

  * `Compressed.number`: an unsigned number in 1, 2 or 4 bytes, most significant byte first;
    the high bits of the first byte tell how many.
  * `Compressed.signedNumber`: the sign in the lowest bit, so its weight depends on the
    number of bytes.
  * `Compressed.token`: a type token, its table in the two low bits.
  * `Compressed.encode`: the bytes of an unsigned number.
  * `SerializedText.read`, `skip`: a length and that many bytes of UTF-8, or the null string.
-/
import ApiCensus.Bytes.Cursor

namespace ApiCensus

namespace Compressed

/-- One more than the largest number that has a compressed form. -/
def bound : Nat := 0x20000000

/-- The value of three bytes, most significant first. -/
def bigEndian (data : ByteArray) : Nat :=
  data.foldl (fun n byte => n * 0x100 + byte.toNat) 0

/-- An unsigned number in 1, 2 or 4 bytes. -/
def number : Attempt Cursor Nat := do
  let lead ← Cursor.byte
  if lead < 0x80 then
    pure lead.toNat
  else if lead < 0xC0 then
    let second ← Cursor.byte
    pure (lead.toNat % 0x40 * 0x100 + second.toNat)
  else if lead < 0xE0 then
    let low ← Cursor.take 3
    pure (lead.toNat % 0x20 * 0x1000000 + bigEndian low)
  else
    Attempt.malformed (.compressedNumber lead)

/-- The number of bits beside the sign in a signed number of `size` bytes. -/
def magnitudeBits (size : Nat) : Nat :=
  match size with
  | 1 => 6
  | 2 => 13
  | _ => 28

/-- The signed number that an unsigned one of `size` bytes stands for. -/
def rotate (size n : Nat) : Int :=
  if n % 2 = 0 then (n / 2 : Nat) else (n / 2 : Nat) - (1 <<< magnitudeBits size : Nat)

/-- A signed number in 1, 2 or 4 bytes. -/
def signedNumber : Attempt Cursor Int := do
  let start ← Cursor.position
  let n ← number
  let stop ← Cursor.position
  pure (rotate (stop - start) n)

/-- The table that the two low bits of a compressed token select. -/
def tokenTable? (value : Nat) : Option TableId :=
  match value % 4 with
  | 0 => some .typeDef
  | 1 => some .typeRef
  | 2 => some .typeSpec
  | _ => none

/-- A type token. The row is not kept apart from the table byte: the bits of a row number
    that is too large for a token are joined into it. -/
def token : Attempt Cursor Token := do
  let value ← number
  match tokenTable? value with
  | some table => pure (Token.ofNat ((table.number * Token.rowBound) ||| (value / 4)))
  | none => Attempt.malformed (.compressedToken value)

/-- The compressed form of a number below `bound`. -/
def encode (n : Nat) : List UInt8 :=
  if n < 0x80 then [UInt8.ofNat n]
  else if n < 0x4000 then [UInt8.ofNat (0x80 + n / 0x100), UInt8.ofNat n]
  else [UInt8.ofNat (0xC0 + n / 0x1000000), UInt8.ofNat (n / 0x10000), UInt8.ofNat (n / 0x100),
    UInt8.ofNat n]

end Compressed

namespace SerializedText

/-- The byte that stands for the null string. -/
def null : UInt8 := 0xFF

/-- The next string, `none` for the null string. -/
def read : Attempt Cursor (Option String) := do
  let lead ← Cursor.peek
  if lead == null then
    Cursor.advance 1
    pure none
  else
    let length ← Compressed.number
    let start ← Cursor.position
    let data ← Cursor.take length
    match Utf8.decode data with
    | .ok text => pure (some text)
    | .error flaw => Attempt.malformed (.serializedText start flaw)

/-- Passes over the next string without a look at its text. -/
def skip : Attempt Cursor Unit := do
  let lead ← Cursor.peek
  if lead == null then
    Cursor.advance 1
  else
    let length ← Compressed.number
    Cursor.advance length

end SerializedText

end ApiCensus
