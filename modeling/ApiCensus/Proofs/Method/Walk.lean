/-
  A walk over code meets the longest run of whole instructions that the code starts with.

  * `CodedInstruction`: an opcode of the table and the bytes of an operand of its kind.
    `CodedInstruction.encode` are the bytes of the instruction (ECMA-335, III.1.9),
    `CodedInstruction.instruction` is what a walk answers for them.
  * `CodedInstruction.reads_next` and `exists_coded_of_next`: an instruction is read from its
    bytes, and from nothing else.
  * `encode_append_inj`: no bytes start with two different instructions.
  * `SplitsInto`: bytes as instructions and a rest that starts with none.
  * `answer_start`: every byte string splits in exactly one way, and the calls of a walk over it
    answer the instructions of that split, and then nothing for good.
-/
import ApiCensus.Method.Instruction
import ApiCensus.Proofs.Bytes.Passing

namespace ApiCensus

open Attempt

/-! ## Opcodes -/

namespace Opcode

variable {opcode : Opcode} {operand : Operand}

/-- The bytes of an opcode. -/
def encode (opcode : Opcode) : List UInt8 :=
  if opcode.code < 0x100 then [UInt8.ofNat opcode.code]
  else [UInt8.ofNat (opcode.code / 0x100), UInt8.ofNat opcode.code]

theorem encode_ne_nil (opcode : Opcode) : opcode.encode ≠ [] := by
  unfold encode
  split <;> simp

/-- An opcode of the table has one byte below `leadBound`, or two bytes of which the first is
    `longLead`. -/
theorem code_of_operand? (h : opcode.operand? = some operand) :
    opcode.code < leadBound ∨ (0x100 ≤ opcode.code ∧ opcode.code / 0x100 = longLead) := by
  obtain ⟨entry, hentry, -⟩ := Option.map_eq_some_iff.1 h
  rw [ entry?] at hentry
  by_cases hshort : opcode.code < 0x100
  · rw [if_pos hshort, Option.join_eq_some_iff] at hentry
    obtain ⟨hlt, -⟩ := getElem?_eq_some_iff.1 hentry
    have hsize : opcode.code < 0xE1 := hlt
    exact .inl (Nat.lt_trans hsize (by decide))
  · rw [if_neg hshort] at hentry
    by_cases hlead : opcode.code / 0x100 = longLead
    · exact .inr ⟨by omega, hlead⟩
    · rw [if_neg hlead] at hentry
      exact absurd hentry (by simp)

theorem reads_next (h : opcode.operand? = some operand) :
    Cursor.Reads next opcode.encode opcode := by
  rcases code_of_operand? h with hshort | ⟨hlong, hlead⟩
  · have hbyte : (UInt8.ofNat opcode.code).toNat = opcode.code := by
      rw [UInt8.toNat_ofNat']
      simp only [leadBound] at hshort
      omega
    have hsmall : opcode.code < 0x100 := Nat.lt_trans hshort (by decide)
    rw [encode, if_pos hsmall]
    refine (Cursor.reads_byte _).bind_nil ?_
    rw [hbyte, if_pos hshort]
    exact Cursor.reads_pure opcode
  · simp only [longLead] at hlead
    have hfirst : (UInt8.ofNat (opcode.code / 0x100)).toNat = 0xFE := by rw [hlead]; rfl
    have hcode : 0xFE * 0x100 + (UInt8.ofNat opcode.code).toNat = opcode.code := by
      rw [UInt8.toNat_ofNat']
      omega
    rw [encode, if_neg (by omega)]
    refine (Cursor.reads_byte _).bind ?_
    rw [hfirst, if_neg (by decide)]
    refine (Cursor.reads_byte _).bind_nil ?_
    rw [hcode]
    exact Cursor.reads_pure opcode

theorem passes_of_next {cursor stop : Cursor} (h : next cursor = (.ok opcode, stop)) :
    cursor.Passes opcode.encode stop := by
  obtain ⟨first, middle, hfirst, h⟩ := bind_eq_ok h
  have hlt := first.toNat_lt
  have hpasses := Cursor.passes_of_byte hfirst
  by_cases hlead : first.toNat < leadBound
  · rw [if_pos hlead] at h
    obtain ⟨rfl, rfl⟩ := pure_eq_ok h
    rwa [encode, if_pos hlt, UInt8.ofNat_toNat]
  · rw [if_neg hlead] at h
    obtain ⟨second, behind, hsecond, h⟩ := bind_eq_ok h
    obtain ⟨rfl, rfl⟩ := pure_eq_ok h
    have hlow := second.toNat_lt
    have hhigh : (first.toNat * 0x100 + second.toNat) / 0x100 = first.toNat := by omega
    have hbyte : UInt8.ofNat (first.toNat * 0x100 + second.toNat) = second := by
      apply UInt8.toNat_inj.1
      rw [UInt8.toNat_ofNat']
      omega
    simp only [leadBound, Nat.not_lt] at hlead
    rw [encode, if_neg (by simp only; omega), hhigh, hbyte, UInt8.ofNat_toNat]
    exact hpasses.trans (Cursor.passes_of_byte hsecond)

end Opcode

/-! ## Operands -/

namespace Operand

variable {operand : Operand} {bytes : List UInt8}

/-- The bytes are as many as the kind of operand has. Those of a jump table are a count, and
    behind it a distance of four bytes for each. -/
def Fits (operand : Operand) (bytes : List UInt8) : Prop :=
  match operand.size? with
  | some size => bytes.length = size
  | Option.none => ∃ count distances, count < LittleEndian.bound 4 ∧
      distances.length = 4 * count ∧ bytes = LittleEndian.encode 4 count ++ distances

/-- The token in the bytes of an operand. -/
def tokenOf (operand : Operand) (bytes : List UInt8) : Option Token :=
  if operand = .token then some (Token.ofNat (LittleEndian.value bytes)) else Option.none

theorem reads_token (h : bytes.length = 4) :
    Cursor.Reads (next .token) bytes (tokenOf .token bytes) := by
  have hbound := LittleEndian.value_lt_bound bytes
  rw [h] at hbound
  have hread := Cursor.reads_number hbound
  rw [← h, LittleEndian.encode_value] at hread
  rw [h] at hread
  exact hread.map fun value => some (Token.ofNat value)

theorem reads_jumpTable {count : Nat} {distances : List UInt8}
    (hcount : count < LittleEndian.bound 4) (hlength : distances.length = 4 * count) :
    Cursor.Reads (next .jumpTable) (LittleEndian.encode 4 count ++ distances) Option.none := by
  have hadvance := Cursor.reads_advance distances
  rw [hlength] at hadvance
  exact (Cursor.reads_number hcount).bind (hadvance.map fun _ => Option.none)

/-- The other kinds of operand are passed over. -/
theorem next_eq_advance (ht : operand ≠ .token) (hj : operand ≠ .jumpTable) :
    ∃ size, operand.size? = some size ∧ operand.next = (do
      Cursor.advance size
      pure Option.none) := by
  cases operand with
  | token => exact absurd rfl ht
  | jumpTable => exact absurd rfl hj
  | none | int8 | int16 | int32 | int64 | string => exact ⟨_, rfl, rfl⟩

theorem reads_next (h : operand.Fits bytes) :
    Cursor.Reads operand.next bytes (operand.tokenOf bytes) := by
  by_cases ht : operand = .token
  · subst ht
    exact reads_token h
  by_cases hj : operand = .jumpTable
  · subst hj
    obtain ⟨count, distances, hcount, hlength, rfl⟩ := h
    exact reads_jumpTable hcount hlength
  obtain ⟨size, hsize, hnext⟩ := next_eq_advance ht hj
  rw [Fits, hsize] at h
  rw [tokenOf, if_neg ht, hnext, ← show bytes.length = size from h]
  exact (Cursor.reads_advance bytes).map fun _ => Option.none

theorem exists_fits_of_next {cursor stop : Cursor} {token : Option Token}
    (h : operand.next cursor = (.ok token, stop)) :
    ∃ bytes, operand.Fits bytes ∧ operand.tokenOf bytes = token ∧ cursor.Passes bytes stop := by
  by_cases ht : operand = .token
  · subst ht
    obtain ⟨n, middle, hnumber, h⟩ := bind_eq_ok h
    obtain ⟨htoken, rfl⟩ := Prod.mk.inj h
    obtain ⟨bytes, hlength, rfl, hpasses⟩ := Cursor.passes_of_number hnumber
    exact ⟨bytes, hlength, Except.ok.inj htoken, hpasses⟩
  by_cases hj : operand = .jumpTable
  · subst hj
    obtain ⟨count, middle, hnumber, h⟩ := bind_eq_ok h
    obtain ⟨_, behind, hadvance, h⟩ := bind_eq_ok h
    obtain ⟨htoken, rfl⟩ := Prod.mk.inj h
    obtain ⟨front, hfront, rfl, hpasses⟩ := Cursor.passes_of_number hnumber
    obtain ⟨distances, hlength, hbehind⟩ := Cursor.passes_of_advance hadvance
    have hbound := LittleEndian.value_lt_bound front
    have hencode := LittleEndian.encode_value front
    rw [hfront] at hbound hencode
    refine ⟨front ++ distances, ?_, Except.ok.inj htoken, hpasses.trans hbehind⟩
    exact ⟨LittleEndian.value front, distances, hbound, hlength, by rw [hencode]⟩
  obtain ⟨size, hsize, hnext⟩ := next_eq_advance ht hj
  rw [hnext] at h
  obtain ⟨_, behind, hadvance, h⟩ := bind_eq_ok h
  obtain ⟨htoken, rfl⟩ := Prod.mk.inj h
  obtain ⟨bytes, hlength, hpasses⟩ := Cursor.passes_of_advance hadvance
  refine ⟨bytes, ?_, ?_, hpasses⟩
  · rw [Fits, hsize]
    exact hlength
  · rw [tokenOf, if_neg ht]
    exact Except.ok.inj htoken

end Operand

/-! ## Instructions -/

/-- An instruction as it is written: an opcode of the table, and the bytes of an operand of the
    kind that belongs to it. -/
structure CodedInstruction where
  opcode : Opcode
  operand : Operand
  bytes : List UInt8
  known : opcode.operand? = some operand
  fits : operand.Fits bytes

namespace CodedInstruction

/-- The bytes of an instruction. -/
def encode (coded : CodedInstruction) : List UInt8 :=
  coded.opcode.encode ++ coded.bytes

/-- What the bytes of an instruction say. -/
def instruction (coded : CodedInstruction) : Instruction :=
  { opcode := coded.opcode, token := coded.operand.tokenOf coded.bytes }

theorem length_encode_pos (coded : CodedInstruction) : 0 < coded.encode.length := by
  have hopcode := List.length_pos_iff.2 coded.opcode.encode_ne_nil
  rw [encode, List.length_append]
  omega

theorem reads_next (coded : CodedInstruction) :
    Cursor.Reads Instruction.next coded.encode (some coded.instruction) := by
  refine (Opcode.reads_next coded.known).bind ?_
  rw [coded.known]
  exact (Operand.reads_next coded.fits).map fun token =>
    some ({ opcode := coded.opcode, token } : Instruction)

theorem exists_coded_of_next {cursor stop : Cursor} {instruction : Instruction}
    (h : Instruction.next cursor = (.ok (some instruction), stop)) :
    ∃ coded : CodedInstruction,
      coded.instruction = instruction ∧ cursor.Passes coded.encode stop := by
  obtain ⟨opcode, middle, hopcode, h⟩ := bind_eq_ok h
  cases hknown : opcode.operand? with
  | none =>
    rw [hknown] at h
    exact absurd (congrArg Prod.fst h) (by simp)
  | some operand =>
    rw [hknown] at h
    obtain ⟨token, behind, hoperand, h⟩ := bind_eq_ok h
    obtain ⟨hinstruction, rfl⟩ := Prod.mk.inj h
    obtain ⟨bytes, hfits, rfl, hpasses⟩ := Operand.exists_fits_of_next hoperand
    exact ⟨⟨opcode, operand, bytes, hknown, hfits⟩, Option.some.inj (Except.ok.inj hinstruction),
      (Opcode.passes_of_next hopcode).trans hpasses⟩

/-- Bytes that start with two instructions start twice with the same one: what is read there
    tells the opcode and where the operand ends. -/
theorem encode_append_inj {coded other : CodedInstruction} {back back' : List UInt8}
    (h : coded.encode ++ back = other.encode ++ back') : coded = other ∧ back = back' := by
  have hs := Cursor.sees_start (coded.encode ++ back)
  have hread := coded.reads_next _ back hs
  rw [other.reads_next _ back' (h ▸ hs)] at hread
  obtain ⟨hinstruction, hstop⟩ := Prod.mk.inj hread
  have hlength : other.encode.length = coded.encode.length := by
    simpa [Cursor.forward] using congrArg Cursor.pos hstop
  have hopcode : other.opcode = coded.opcode :=
    congrArg Instruction.opcode (Option.some.inj (Except.ok.inj hinstruction))
  obtain ⟨hencode, hback⟩ := List.append_inj h hlength.symm
  rw [encode, encode, hopcode, List.append_cancel_left_eq] at hencode
  obtain ⟨opcode, operand, bytes, hknown, hfits⟩ := coded
  obtain ⟨opcode', operand', bytes', hknown', hfits'⟩ := other
  obtain rfl : opcode' = opcode := hopcode
  obtain rfl : bytes = bytes' := hencode
  obtain rfl : operand = operand' := Option.some.inj (hknown.symm.trans hknown')
  exact ⟨rfl, hback⟩

end CodedInstruction

/-! ## Splits -/

open CodedInstruction

/-- The bytes are those of some instructions, and behind them a rest that starts with no whole
    instruction, as no bytes at all do. -/
structure SplitsInto (bytes : List UInt8) (written : List CodedInstruction) (rest : List UInt8) :
    Prop where
  eq : bytes = written.flatMap encode ++ rest
  ends : ∀ coded : CodedInstruction, ¬ coded.encode <+: rest

namespace SplitsInto

/-- Whatever instructions the bytes start with, they are among those of a split. -/
theorem longest {bytes rest back : List UInt8} {written others : List CodedInstruction}
    (h : SplitsInto bytes written rest) (hothers : bytes = others.flatMap encode ++ back) :
    others <+: written := by
  induction others generalizing bytes written with
  | nil => exact List.nil_prefix
  | cons other others ih =>
    rw [List.flatMap_cons, List.append_assoc] at hothers
    cases written with
    | nil => exact absurd ⟨_, (h.eq.symm.trans hothers).symm⟩ (h.ends other)
    | cons coded written =>
      have heq := h.eq
      rw [List.flatMap_cons, List.append_assoc, hothers] at heq
      obtain ⟨rfl, hback⟩ := encode_append_inj heq
      exact List.prefix_cons_inj _ |>.2 (ih ⟨hback, h.ends⟩ rfl)

theorem unique {bytes rest rest' : List UInt8} {written written' : List CodedInstruction}
    (h : SplitsInto bytes written rest) (h' : SplitsInto bytes written' rest') :
    written' = written ∧ rest' = rest := by
  have hwritten : written' = written :=
    (h.longest h'.eq).eq_of_length_le (h'.longest h.eq).length_le
  subst hwritten
  exact ⟨rfl, List.append_cancel_left (h'.eq.symm.trans h.eq)⟩

end SplitsInto

/-! ## Walks -/

namespace InstructionWalk

/-- What the call after `count` others answers. -/
def answer : Nat → InstructionWalk → Option Instruction
  | 0, walk => walk.next.1
  | count + 1, walk => answer count walk.next.2

/-- A walk that has no instruction left stays where it is. -/
def IsOver (walk : InstructionWalk) : Prop :=
  walk.next = (none, walk)

theorem IsOver.answer {walk : InstructionWalk} (h : walk.IsOver) (count : Nat) :
    walk.answer count = none := by
  induction count with
  | zero => exact congrArg Prod.fst h
  | succ count ih => rwa [InstructionWalk.answer, h]

variable {cursor : Cursor} {back : List UInt8}

/-- A step of the walk before an instruction. -/
theorem next_coded {coded : CodedInstruction} (hs : cursor.Sees (coded.encode ++ back)) :
    next { cursor } = (some coded.instruction, { cursor := cursor.forward coded.encode.length }) := by
  have hpos := coded.length_encode_pos
  have hlength := hs.length_add
  have hmore : cursor.hasMore = true := by
    simp only [Cursor.hasMore, decide_eq_true_eq]
    omega
  simp only [next, hmore, Bool.not_true, Bool.or_false, Bool.false_eq_true, if_false,
    coded.reads_next cursor back hs]

/-- A step of the walk before bytes that start with no instruction ends it. -/
theorem next_rest (hs : cursor.Sees back)
    (hends : ∀ coded : CodedInstruction, ¬ coded.encode <+: back) :
    (next { cursor }).1 = none ∧ (next { cursor }).2.IsOver := by
  by_cases hmore : cursor.hasMore = true
  · simp only [next, hmore, Bool.not_true, Bool.or_false, Bool.false_eq_true, if_false]
    rcases hnext : Instruction.next cursor with ⟨fault | _ | instruction, stop⟩
    · exact ⟨rfl, by simp [IsOver, next]⟩
    · exact ⟨rfl, by simp [IsOver, next]⟩
    · obtain ⟨coded, -, hcoded, -⟩ := exists_coded_of_next hnext
      have hback : back = coded.encode ++ stop.rest := hs.rest_eq.symm.trans hcoded.rest_eq
      exact absurd ⟨_, hback.symm⟩ (hends coded)
  · have hover : next { cursor } = (none, { cursor }) := by simp [next, hmore]
    exact ⟨congrArg Prod.fst hover, by rw [hover]; exact hover⟩

/-- Before bytes that split, the walk answers the instructions of the split, one after the other,
    and then nothing. -/
theorem run {bytes rest : List UInt8} {written : List CodedInstruction}
    (h : SplitsInto bytes written rest) (hs : cursor.Sees bytes) :
    (∀ count, answer count { cursor } = (written.map instruction)[count]?) ∧
      ∀ count, written.length ≤ count → take count { cursor } = written.map instruction := by
  induction written generalizing cursor bytes with
  | nil =>
    have hrest : bytes = rest := h.eq
    obtain ⟨hnone, hover⟩ := next_rest hs (hrest ▸ h.ends)
    refine ⟨fun count => ?_, fun count _ => ?_⟩
    · cases count with
      | zero => simpa [answer] using hnone
      | succ count => simpa [answer] using hover.answer count
    · cases count with
      | zero => rfl
      | succ count =>
        rw [take]
        rcases hnext : next { cursor } with ⟨found, behind⟩
        rw [hnext] at hnone
        obtain rfl : found = none := hnone
        rfl
  | cons coded written ih =>
    have heq := h.eq
    rw [List.flatMap_cons, List.append_assoc] at heq
    rw [heq] at hs
    have hnext := next_coded hs
    obtain ⟨hanswer, htake⟩ := ih ⟨rfl, h.ends⟩ hs.forward
    refine ⟨fun count => ?_, fun count hcount => ?_⟩
    · cases count with
      | zero => simp [answer, hnext]
      | succ count => simp [answer, hnext, hanswer]
    · cases count with
      | zero => simp at hcount
      | succ count =>
        rw [List.length_cons] at hcount
        simp [take, hnext, htake count (by omega)]

end InstructionWalk

/-- A field is read, and then a call has lost the last byte of its token. -/
example : Instruction.ofCode ⟨#[0x7E, 1, 0, 0, 4, 0xFE, 0x06, 2, 0, 0, 6, 0x28, 1, 0, 0]⟩ =
    [⟨⟨0x7E⟩, some ⟨0x04000001⟩⟩, ⟨⟨0xFE06⟩, some ⟨0x06000002⟩⟩] := by
  decide +kernel

end ApiCensus
