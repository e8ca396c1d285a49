/-
  The instructions of managed code.

  * `Instruction.next`: one instruction from a position on, and the token that it carries.
  * `InstructionWalk`: a walk over code. `InstructionWalk.next` is one call for the next
    instruction; where none can be read, the walk is over for good.
  * `Instruction.ofCode`: the instructions of a byte string, up to the first place where no
    whole instruction with a known opcode starts.
-/
import ApiCensus.Bytes.Cursor
import ApiCensus.Method.Opcode

namespace ApiCensus

/-- An instruction: the opcode, and the token where it carries one. -/
structure Instruction where
  opcode : Opcode
  token : Option Token
  deriving Repr, DecidableEq, Inhabited

/-- The opcode at the cursor. -/
def Opcode.next : Attempt Cursor Opcode := do
  let first ← Cursor.byte
  if first.toNat < leadBound then
    pure ⟨first.toNat⟩
  else do
    let second ← Cursor.byte
    pure ⟨first.toNat * 0x100 + second.toNat⟩

/-- Passes over an operand, of which only a token is kept. -/
def Operand.next : Operand → Attempt Cursor (Option Token)
  | .token => do
    let value ← Cursor.number 4
    pure (some (Token.ofNat value))
  | .jumpTable => do
    let count ← Cursor.number 4
    Cursor.advance (4 * count)
    pure Option.none
  | operand => do
    Cursor.advance (operand.size?.getD 0)
    pure Option.none

/-- The instruction at the cursor, `none` if its opcode is unknown. -/
def Instruction.next : Attempt Cursor (Option Instruction) := do
  let opcode ← Opcode.next
  match opcode.operand? with
  | none => pure none
  | some operand => do
    let token ← operand.next
    pure (some { opcode, token })

/-- A walk over code, from its first instruction on. -/
structure InstructionWalk where
  cursor : Cursor
  /-- There was an instruction that could not be read. -/
  finished : Bool := false

namespace InstructionWalk

/-- The walk that starts at the first byte. -/
def start (code : ByteArray) : InstructionWalk :=
  { cursor := { data := code } }

/-- The next instruction, if there is one, and the walk behind it. -/
def next (walk : InstructionWalk) : Option Instruction × InstructionWalk :=
  if walk.finished || !walk.cursor.hasMore then
    (none, walk)
  else
    match Instruction.next walk.cursor with
    | (.ok (some instruction), cursor) => (some instruction, { walk with cursor })
    | (_, cursor) => (none, { cursor, finished := true })

/-- The answers of up to `count` calls, before the first one that has none. -/
def take : Nat → InstructionWalk → List Instruction
  | 0, _ => []
  | count + 1, walk =>
    match walk.next with
    | (none, _) => []
    | (some instruction, behind) => instruction :: behind.take count

end InstructionWalk

/-- The instructions of a byte string. There are at most as many as there are bytes. -/
def Instruction.ofCode (code : ByteArray) : List Instruction :=
  (InstructionWalk.start code).take code.size

end ApiCensus
