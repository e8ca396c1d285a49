/-
  The opcodes of managed code.

  * `Operand`: what follows an opcode; `Operand.size?` is its width where that is fixed.
  * `Opcode`: the number of an instruction; `Opcode.entry?` is its line in the table of the
    standard.
-/
import ApiCensus.Text.Hex

namespace ApiCensus

/-- What follows an opcode. -/
inductive Operand where
  /-- Nothing. -/
  | none
  /-- A number or a short distance. -/
  | int8
  /-- The number of an argument or of a local variable. -/
  | int16
  /-- A number or a distance. -/
  | int32
  /-- A long number. -/
  | int64
  /-- A metadata token. -/
  | token
  /-- The token of a string literal. -/
  | string
  /-- A count and that many distances. -/
  | jumpTable
  deriving Repr, DecidableEq, Inhabited

namespace Operand

/-- The name of a kind of operand. -/
def name : Operand → String
  | .none => "None"
  | .int8 => "Int8"
  | .int16 => "Int16"
  | .int32 => "Int32"
  | .int64 => "Int64"
  | .token => "Token"
  | .string => "String"
  | .jumpTable => "Switch"

/-- The number of bytes of an operand, `none` if it depends on the operand itself. -/
def size? : Operand → Option Nat
  | .none => some 0
  | .int8 => some 1
  | .int16 => some 2
  | .int32 | .token | .string => some 4
  | .int64 => some 8
  | .jumpTable => Option.none

end Operand

/-- The number of an instruction. Where the instruction has two bytes, the first one is the
    high byte. -/
structure Opcode where
  code : Nat
  deriving Repr, DecidableEq, Inhabited

namespace Opcode

/-- The mnemonics and operands of the opcodes of one byte, by their number. -/
def short : Array (Option (String × Operand)) :=
  #[
    -- from 0x00
    some ("nop", .none), some ("break", .none), some ("ldarg.0", .none), some ("ldarg.1", .none),
    some ("ldarg.2", .none), some ("ldarg.3", .none), some ("ldloc.0", .none),
    some ("ldloc.1", .none), some ("ldloc.2", .none), some ("ldloc.3", .none),
    some ("stloc.0", .none), some ("stloc.1", .none), some ("stloc.2", .none),
    some ("stloc.3", .none), some ("ldarg.s", .int8), some ("ldarga.s", .int8),
    -- from 0x10
    some ("starg.s", .int8), some ("ldloc.s", .int8), some ("ldloca.s", .int8),
    some ("stloc.s", .int8), some ("ldnull", .none), some ("ldc.i4.m1", .none),
    some ("ldc.i4.0", .none), some ("ldc.i4.1", .none), some ("ldc.i4.2", .none),
    some ("ldc.i4.3", .none), some ("ldc.i4.4", .none), some ("ldc.i4.5", .none),
    some ("ldc.i4.6", .none), some ("ldc.i4.7", .none), some ("ldc.i4.8", .none),
    some ("ldc.i4.s", .int8),
    -- from 0x20
    some ("ldc.i4", .int32), some ("ldc.i8", .int64), some ("ldc.r4", .int32),
    some ("ldc.r8", .int64), none, some ("dup", .none), some ("pop", .none), some ("jmp", .token),
    some ("call", .token), some ("calli", .token), some ("ret", .none), some ("br.s", .int8),
    some ("brfalse.s", .int8), some ("brtrue.s", .int8), some ("beq.s", .int8),
    some ("bge.s", .int8),
    -- from 0x30
    some ("bgt.s", .int8), some ("ble.s", .int8), some ("blt.s", .int8), some ("bne.un.s", .int8),
    some ("bge.un.s", .int8), some ("bgt.un.s", .int8), some ("ble.un.s", .int8),
    some ("blt.un.s", .int8), some ("br", .int32), some ("brfalse", .int32),
    some ("brtrue", .int32), some ("beq", .int32), some ("bge", .int32), some ("bgt", .int32),
    some ("ble", .int32), some ("blt", .int32),
    -- from 0x40
    some ("bne.un", .int32), some ("bge.un", .int32), some ("bgt.un", .int32),
    some ("ble.un", .int32), some ("blt.un", .int32), some ("switch", .jumpTable),
    some ("ldind.i1", .none), some ("ldind.u1", .none), some ("ldind.i2", .none),
    some ("ldind.u2", .none), some ("ldind.i4", .none), some ("ldind.u4", .none),
    some ("ldind.i8", .none), some ("ldind.i", .none), some ("ldind.r4", .none),
    some ("ldind.r8", .none),
    -- from 0x50
    some ("ldind.ref", .none), some ("stind.ref", .none), some ("stind.i1", .none),
    some ("stind.i2", .none), some ("stind.i4", .none), some ("stind.i8", .none),
    some ("stind.r4", .none), some ("stind.r8", .none), some ("add", .none), some ("sub", .none),
    some ("mul", .none), some ("div", .none), some ("div.un", .none), some ("rem", .none),
    some ("rem.un", .none), some ("and", .none),
    -- from 0x60
    some ("or", .none), some ("xor", .none), some ("shl", .none), some ("shr", .none),
    some ("shr.un", .none), some ("neg", .none), some ("not", .none), some ("conv.i1", .none),
    some ("conv.i2", .none), some ("conv.i4", .none), some ("conv.i8", .none),
    some ("conv.r4", .none), some ("conv.r8", .none), some ("conv.u4", .none),
    some ("conv.u8", .none), some ("callvirt", .token),
    -- from 0x70
    some ("cpobj", .token), some ("ldobj", .token), some ("ldstr", .string),
    some ("newobj", .token), some ("castclass", .token), some ("isinst", .token),
    some ("conv.r.un", .none), none, none, some ("unbox", .token), some ("throw", .none),
    some ("ldfld", .token), some ("ldflda", .token), some ("stfld", .token),
    some ("ldsfld", .token), some ("ldsflda", .token),
    -- from 0x80
    some ("stsfld", .token), some ("stobj", .token), some ("conv.ovf.i1.un", .none),
    some ("conv.ovf.i2.un", .none), some ("conv.ovf.i4.un", .none),
    some ("conv.ovf.i8.un", .none), some ("conv.ovf.u1.un", .none),
    some ("conv.ovf.u2.un", .none), some ("conv.ovf.u4.un", .none),
    some ("conv.ovf.u8.un", .none), some ("conv.ovf.i.un", .none), some ("conv.ovf.u.un", .none),
    some ("box", .token), some ("newarr", .token), some ("ldlen", .none),
    some ("ldelema", .token),
    -- from 0x90
    some ("ldelem.i1", .none), some ("ldelem.u1", .none), some ("ldelem.i2", .none),
    some ("ldelem.u2", .none), some ("ldelem.i4", .none), some ("ldelem.u4", .none),
    some ("ldelem.i8", .none), some ("ldelem.i", .none), some ("ldelem.r4", .none),
    some ("ldelem.r8", .none), some ("ldelem.ref", .none), some ("stelem.i", .none),
    some ("stelem.i1", .none), some ("stelem.i2", .none), some ("stelem.i4", .none),
    some ("stelem.i8", .none),
    -- from 0xA0
    some ("stelem.r4", .none), some ("stelem.r8", .none), some ("stelem.ref", .none),
    some ("ldelem", .token), some ("stelem", .token), some ("unbox.any", .token), none, none,
    none, none, none, none, none, none, none, none,
    -- from 0xB0
    none, none, none, some ("conv.ovf.i1", .none), some ("conv.ovf.u1", .none),
    some ("conv.ovf.i2", .none), some ("conv.ovf.u2", .none), some ("conv.ovf.i4", .none),
    some ("conv.ovf.u4", .none), some ("conv.ovf.i8", .none), some ("conv.ovf.u8", .none), none,
    none, none, none, none,
    -- from 0xC0
    none, none, some ("refanyval", .token), some ("ckfinite", .none), none, none,
    some ("mkrefany", .token), none, none, none, none, none, none, none, none, none,
    -- from 0xD0
    some ("ldtoken", .token), some ("conv.u2", .none), some ("conv.u1", .none),
    some ("conv.i", .none), some ("conv.ovf.i", .none), some ("conv.ovf.u", .none),
    some ("add.ovf", .none), some ("add.ovf.un", .none), some ("mul.ovf", .none),
    some ("mul.ovf.un", .none), some ("sub.ovf", .none), some ("sub.ovf.un", .none),
    some ("endfinally", .none), some ("leave", .int32), some ("leave.s", .int8),
    some ("stind.i", .none),
    -- from 0xE0
    some ("conv.u", .none)]

/-- The mnemonics and operands of the opcodes of two bytes, by their second byte. -/
def long : Array (Option (String × Operand)) :=
  #[
    -- from 0x00
    some ("arglist", .none), some ("ceq", .none), some ("cgt", .none), some ("cgt.un", .none),
    some ("clt", .none), some ("clt.un", .none), some ("ldftn", .token),
    some ("ldvirtftn", .token), none, some ("ldarg", .int16), some ("ldarga", .int16),
    some ("starg", .int16), some ("ldloc", .int16), some ("ldloca", .int16),
    some ("stloc", .int16), some ("localloc", .none),
    -- from 0x10
    none, some ("endfilter", .none), some ("unaligned.", .int8), some ("volatile.", .none),
    some ("tail.", .none), some ("initobj", .token), some ("constrained.", .token),
    some ("cpblk", .none), some ("initblk", .none), some ("no.", .int8), some ("rethrow", .none),
    none, some ("sizeof", .token), some ("refanytype", .none), some ("readonly.", .none)]

/-- The first byte of the opcodes of two bytes. -/
def longLead : Nat := 0xFE

/-- The first bytes from this one on have a second byte behind them. -/
def leadBound : Nat := 0xF0

/-- The mnemonic and the operand of an opcode, if there is such an opcode. -/
def entry? (opcode : Opcode) : Option (String × Operand) :=
  if opcode.code < 0x100 then short[opcode.code]?.join
  else if opcode.code / 0x100 = longLead then long[opcode.code % 0x100]?.join
  else none

/-- The mnemonic of an opcode. -/
def mnemonic? (opcode : Opcode) : Option String :=
  opcode.entry?.map Prod.fst

/-- The operand of an opcode. -/
def operand? (opcode : Opcode) : Option Operand :=
  opcode.entry?.map Prod.snd

/-- The number of bytes of the operand, if the opcode alone tells it. -/
def operandSize? (opcode : Opcode) : Option Nat :=
  opcode.operand?.bind Operand.size?

/-- A metadata token follows the opcode. -/
def carriesToken (opcode : Opcode) : Bool :=
  opcode.operand? == some .token

/-- The number of bytes of the opcode itself. -/
def size (opcode : Opcode) : Nat :=
  if opcode.code < 0x100 then 1 else 2

theorem size_pos (opcode : Opcode) : 0 < opcode.size := by
  unfold size; split <;> decide

/-- The mnemonic, or the number where there is none. -/
protected def toString (opcode : Opcode) : String :=
  opcode.mnemonic?.getD ("0x" ++ Hex.ofNat 4 opcode.code)

instance : ToString Opcode := ⟨Opcode.toString⟩

/-! ## The opcodes that a census looks for -/

/-- Does nothing. -/
def nop : Opcode := ⟨0x00⟩

/-- Makes an object. -/
def newObject : Opcode := ⟨0x73⟩

/-- Throws an exception. -/
def throwObject : Opcode := ⟨0x7A⟩

/-- Reads a field. -/
def loadField : Opcode := ⟨0x7B⟩

/-- Takes the address of a field. -/
def loadFieldAddress : Opcode := ⟨0x7C⟩

/-- Writes a field. -/
def storeField : Opcode := ⟨0x7D⟩

/-- Reads a static field. -/
def loadStaticField : Opcode := ⟨0x7E⟩

/-- Takes the address of a static field. -/
def loadStaticFieldAddress : Opcode := ⟨0x7F⟩

/-- Writes a static field. -/
def storeStaticField : Opcode := ⟨0x80⟩

end Opcode

end ApiCensus
