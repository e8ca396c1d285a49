/-
  The bodies of methods.

  * `ExceptionClause`: how a part of the code is protected.
  * `MethodBody.ofBytes`: the body at the start of a byte string. Its header is tiny or fat;
    behind the code of a fat body there may be sections that hold the clauses.
-/
import ApiCensus.Bytes.Cursor
import ApiCensus.Metadata.Token

namespace ApiCensus

/-- A handler and the part of the code that it protects. -/
structure ExceptionClause where
  /-- The kind of the handler, a bit each for a filter, a final part and a fault handler. -/
  flags : Nat
  tryOffset : Nat
  tryLength : Nat
  handlerOffset : Nat
  handlerLength : Nat
  /-- The type that is caught, or the start of the filter. -/
  classOrFilter : Nat
  deriving Repr, DecidableEq, Inhabited

namespace ExceptionClause

/-- One more than the highest value of the defined flags. -/
def flagBound : Nat := 8

/-- The clause catches exceptions of a type. -/
def isCatch (clause : ExceptionClause) : Bool :=
  clause.flags % flagBound == 0

/-- The type that is caught. -/
def classToken (clause : ExceptionClause) : Option Token :=
  if clause.isCatch then some (Token.ofNat clause.classOrFilter) else none

/-- The start of the filter. -/
def filterOffset (clause : ExceptionClause) : Option Nat :=
  if clause.flags.testBit 0 then some clause.classOrFilter else none

/-- The number of bytes of a clause. -/
def size (isFat : Bool) : Nat :=
  if isFat then 24 else 12

/-- The clause at the cursor. -/
def read (isFat : Bool) : Attempt Cursor ExceptionClause := do
  let flags ← Cursor.number (if isFat then 4 else 2)
  let tryOffset ← Cursor.number (if isFat then 4 else 2)
  let tryLength ← Cursor.number (if isFat then 4 else 1)
  let handlerOffset ← Cursor.number (if isFat then 4 else 2)
  let handlerLength ← Cursor.number (if isFat then 4 else 1)
  let classOrFilter ← Cursor.number 4
  pure { flags := flags % flagBound, tryOffset, tryLength, handlerOffset, handlerLength,
         classOrFilter }

end ExceptionClause

/-- The body of a method. -/
structure MethodBody where
  code : ByteArray
  /-- The number of bytes before the code. -/
  headerSize : Nat
  /-- The token of the signature of the local variables, 0 if there are none. -/
  locals : Nat
  /-- The number of values that the code keeps at once. -/
  maxStack : Nat
  isFat : Bool
  initializesLocals : Bool
  clauses : List ExceptionClause

namespace MethodBody

/-- The number of bytes up to the end of the code. -/
def size (body : MethodBody) : Nat :=
  body.code.size + body.headerSize

/-- The smallest fat header. -/
def fatHeaderSize : Nat := 12

/-- The bytes before the first clause of a section. -/
def sectionHeaderSize : Nat := 4

/-- The number of values that a method with a tiny header keeps at once. -/
def tinyMaxStack : Nat := 8

/-- The header of a section: its flags, whether it is fat, and its size. -/
def sectionHeader : Attempt Cursor (Nat × Bool × Nat) := do
  let flags ← Cursor.number 1
  if flags.testBit 6 then
    let size ← Cursor.number 3
    pure (flags, true, size)
  else
    let size ← Cursor.number 1
    Cursor.advance 2
    pure (flags, false, size)

/-- The clauses of the section at the cursor and of those behind it, at most `sections` of
    them. A section that holds something else than clauses is passed over. -/
def clausesWithin : Nat → Attempt Cursor (List ExceptionClause)
  | 0 => throw .outOfBounds
  | sections + 1 => do
    let start ← Cursor.position
    let (flags, isFat, size) ← sectionHeader
    if size < sectionHeaderSize then
      Attempt.malformed (.dataSectionSize size)
    else
      let count := (size - sectionHeaderSize) / ExceptionClause.size isFat
      let clauses ←
        if flags.testBit 0 then Attempt.repeated (ExceptionClause.read isFat) count
        else pure []
      if flags.testBit 7 then
        Cursor.seek (start + size)
        Cursor.align 4
        let rest ← clausesWithin sections
        pure (clauses ++ rest)
      else
        pure clauses

/-- The clauses of the sections at the cursor. Each section has four bytes or more, so there
    are no more sections than bytes. -/
def clausesAtCursor : Attempt Cursor (List ExceptionClause) := do
  let cursor ← get
  clausesWithin (cursor.remaining + 1)

/-- The body at the cursor, at the start of the data. -/
def read : Attempt Cursor MethodBody := do
  let lead ← Cursor.peek
  match lead.toNat % 4 with
  | 2 => do
    Cursor.advance 1
    let code ← Cursor.take (lead.toNat / 4)
    pure { code, headerSize := 1, locals := 0, maxStack := tinyMaxStack, isFat := false,
           initializesLocals := false, clauses := [] }
  | 3 => do
    let flags ← Cursor.number 2
    let maxStack ← Cursor.number 2
    let codeSize ← Cursor.number 4
    let locals ← Cursor.number 4
    let headerSize := flags / 0x1000 * 4
    if headerSize < fatHeaderSize then
      Attempt.malformed (.fatHeaderSize headerSize)
    else
      Cursor.seek headerSize
      let code ← Cursor.take codeSize
      let clauses ←
        if flags.testBit 3 then do
          Cursor.align 4
          clausesAtCursor
        else
          pure []
      pure { code, headerSize, locals, maxStack, isFat := true,
             initializesLocals := flags.testBit 4, clauses }
  | _ => Attempt.malformed (.bodyFormat lead)

/-- The body at the start of a byte string, which may go on behind it. -/
def ofBytes (data : ByteArray) : Except Fault MethodBody :=
  if data.isEmpty then .error (.malformed .emptyBody) else read.result { data }

end MethodBody

end ApiCensus
