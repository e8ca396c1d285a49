/-
  The bytes of method bodies.

  * `MethodBody.encode`: the body that holds a code and catches the given types.

  A clause protects the whole code. Its length, and the size of the section of clauses, have
  one byte each and end at 255; the length of the code before it has four bytes.
-/
import ApiCensus.Bytes.Alignment
import ApiCensus.Method.Body

namespace ApiCensus

/-- A number as far as one byte holds it. -/
def byteOf (n : Nat) : Nat :=
  min n 0xFF

/-- A number as far as four bytes hold it. -/
def wordOf (n : Nat) : Nat :=
  min n 0xFFFFFFFF

namespace ExceptionClause

/-- The clause in its short form. -/
def encode (clause : ExceptionClause) : List UInt8 :=
  LittleEndian.encodeAll
    [(2, clause.flags), (2, clause.tryOffset), (1, clause.tryLength), (2, clause.handlerOffset),
     (1, clause.handlerLength), (4, clause.classOrFilter)]

/-- The clause that catches a type in a code of a given length. -/
def catching (length : Nat) (type : Token) : ExceptionClause where
  flags := 0
  tryOffset := 0
  tryLength := byteOf length
  handlerOffset := 0
  handlerLength := byteOf length
  classOrFilter := type.value.toNat

end ExceptionClause

namespace MethodBody

/-- One more than the longest code behind a tiny header. -/
def tinyBound : Nat := 64

/-- A tiny header: one byte with the length of the code. -/
def tinyHeader (length : Nat) : List UInt8 :=
  [UInt8.ofNat (length * 4 + 2)]

/-- A fat header: its flags, the number of values kept at once, the length of the code and no
    local variables. -/
def fatHeader (hasClauses : Bool) (length : Nat) : List UInt8 :=
  LittleEndian.encodeAll
    [(2, if hasClauses then 0x300B else 0x3003), (2, tinyMaxStack), (4, wordOf length), (4, 0)]

/-- The section of the clauses that catch the given types. -/
def clauseSection (length : Nat) (catches : List Token) : List UInt8 :=
  let size := sectionHeaderSize + ExceptionClause.size false * catches.length
  LittleEndian.encodeAll [(1, 1), (1, byteOf size), (2, 0)]
    ++ catches.flatMap fun type => (ExceptionClause.catching length type).encode

/-- The body that holds a code and catches the given types. -/
def encode (code : ByteArray) (catches : List Token) : List UInt8 :=
  if catches.isEmpty && code.size < tinyBound then tinyHeader code.size ++ code.data.toList
  else
    let body := fatHeader (!catches.isEmpty) code.size ++ code.data.toList
    if catches.isEmpty then body
    else Alignment.padded 4 body ++ clauseSection code.size catches

end MethodBody

end ApiCensus
