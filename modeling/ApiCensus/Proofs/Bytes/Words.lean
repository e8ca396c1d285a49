/-
  Reading in words.

  * `Cursor.stopOn`, `advanceOn`, `alignOn`, `takeOn`, `numberOn`, `Compressed.numberOn`,
    `SerializedText.readOn` and their companions: the steps of a cursor with every sum, difference
    and slice as it is taken. The position is a word of 64 bits.
  * `Cursor.Safe`: in data that has less than 2 ^ 64 bytes nothing is missing, and the step ends
    inside the data and not before it began; `SafeAt.bind` and its companions derive it from the
    parts.
  * `Cursor.safe_number`, `Compressed.safe_number`, `SerializedText.safe_read` and their
    companions: so it is with each step.
-/
import ApiCensus.Proofs.Bytes.TypeToken
import ApiCensus.Proofs.Checked

namespace ApiCensus

open Attempt

variable {α β : Type}

/-! ## Steps in words -/

namespace Cursor

/-- The position behind the next `count` bytes. -/
def stopOn (cursor : Cursor) (count : Nat) : Checked Nat :=
  if 2 ^ 64 ≤ cursor.pos + count then throw .outOfBounds
  else if cursor.data.size < cursor.pos + count then throw .outOfBounds
  else pure (cursor.pos + count)

/-- Passes over `count` bytes. -/
def advanceOn (count : Nat) : CheckedAttempt Cursor Unit := do
  let cursor ← get
  let stop ← cursor.stopOn count
  set { cursor with pos := stop }

/-- Passes over the bytes up to the next multiple of `unit`. -/
def alignOn (unit : Nat) : CheckedAttempt Cursor Unit := do
  let cursor ← get
  let past ← Checked.rem cursor.pos unit
  let left ← Checked.sub unit past
  let padding ← Checked.rem left unit
  advanceOn padding

/-- The next `count` bytes. -/
def takeOn (count : Nat) : CheckedAttempt Cursor ByteArray := do
  let cursor ← get
  let stop ← cursor.stopOn count
  let bytes ← Checked.slice cursor.data cursor.pos stop
  set { cursor with pos := stop }
  pure bytes

/-- The number in the next `width` bytes. -/
def numberOn (width : Nat) : CheckedAttempt Cursor Nat := do
  let cursor ← get
  let stop ← cursor.stopOn width
  let bytes ← Checked.slice cursor.data cursor.pos stop
  if bytes.size = width then do
    set { cursor with pos := stop }
    pure (LittleEndian.valueAt bytes 0 width)
  else throw .outOfBounds

/-- The next byte. -/
def byteOn : CheckedAttempt Cursor UInt8 := do
  let n ← numberOn 1
  pure (UInt8.ofNat n)

/-- Passes over a byte, without a look at whether there is one. -/
def passByteOn : CheckedAttempt Cursor Unit := do
  let cursor ← get
  let pos ← Checked.add 64 cursor.pos 1
  set { cursor with pos }

/-- Goes to a position, which takes no arithmetic. -/
def seekOn (pos : Nat) : CheckedAttempt Cursor Unit :=
  .ofAttempt (seek pos)

/-- The next byte, which stays the next one. -/
def peekOn : CheckedAttempt Cursor UInt8 :=
  .ofAttempt peek

/-- The position of the next byte. -/
def positionOn : CheckedAttempt Cursor Nat :=
  .ofAttempt position

end Cursor

open Cursor

namespace Compressed

/-- An unsigned number in 1, 2 or 4 bytes. -/
def numberOn : CheckedAttempt Cursor Nat := do
  let lead ← byteOn
  if lead < 0x80 then
    pure lead.toNat
  else if lead < 0xC0 then
    let second ← byteOn
    pure (lead.toNat % 0x40 * 0x100 + second.toNat)
  else if lead < 0xE0 then
    let low ← takeOn 3
    let a ← Checked.byteAt low 0
    let b ← Checked.byteAt low 1
    let c ← Checked.byteAt low 2
    pure (lead.toNat % 0x20 * 0x1000000 + ((a.toNat * 0x100 + b.toNat) * 0x100 + c.toNat))
  else
    throw (.malformed (.compressedNumber lead))

/-- The number without its lowest bit is a signed word, and so is what it stands for. -/
def signedNumberOn : CheckedAttempt Cursor Int := do
  let start ← positionOn
  let n ← numberOn
  let stop ← positionOn
  let size ← Checked.sub stop start
  let magnitude := LittleEndian.signed 4 (n / 2)
  if n % 2 = 0 then pure magnitude
  else Checked.subSigned 32 magnitude (1 <<< magnitudeBits size : Nat)

/-- A type token. -/
def tokenOn : CheckedAttempt Cursor Token := do
  let value ← numberOn
  match tokenTable? value with
  | some table => pure (Token.ofNat ((table.number * Token.rowBound) ||| (value / 4)))
  | none => throw (.malformed (.compressedToken value))

end Compressed

namespace SerializedText

/-- The next string, `none` for the null string. -/
def readOn : CheckedAttempt Cursor (Option String) := do
  let lead ← peekOn
  if lead == null then
    passByteOn
    pure none
  else
    let length ← Compressed.numberOn
    let start ← positionOn
    let data ← takeOn length
    match Utf8.decode data with
    | .ok text => pure (some text)
    | .error flaw => throw (.malformed (.serializedText start flaw))

/-- Passes over the next string. -/
def skipOn : CheckedAttempt Cursor Unit := do
  let lead ← peekOn
  if lead == null then
    passByteOn
  else
    let length ← Compressed.numberOn
    advanceOn length

end SerializedText

/-! ## Safe steps -/

namespace Cursor

variable {cursor middle stop : Cursor}

/-- The cursor stands in data whose size is a word. -/
structure Fits (cursor : Cursor) : Prop where
  size_lt : cursor.data.size < 2 ^ 64
  inside : cursor.pos ≤ cursor.data.size

/-- From one cursor the other is reached without a step back, and inside the data. -/
structure Onward (cursor stop : Cursor) : Prop where
  data_eq : stop.data = cursor.data
  le_pos : cursor.pos ≤ stop.pos
  inside : stop.pos ≤ cursor.data.size

theorem Onward.refl (h : cursor.Fits) : cursor.Onward cursor :=
  ⟨rfl, Nat.le_refl _, h.inside⟩

theorem Onward.trans (hf : cursor.Onward middle) (hs : middle.Onward stop) :
    cursor.Onward stop :=
  ⟨hs.data_eq.trans hf.data_eq, Nat.le_trans hf.le_pos hs.le_pos, hf.data_eq ▸ hs.inside⟩

theorem Onward.fits (h : cursor.Onward stop) (hc : cursor.Fits) : stop.Fits :=
  ⟨h.data_eq ▸ hc.size_lt, h.data_eq ▸ h.inside⟩

theorem onward_forward {count : Nat} (h : cursor.pos + count ≤ cursor.data.size) :
    cursor.Onward (cursor.forward count) :=
  ⟨rfl, Nat.le_add_right _ _, h⟩

/-- From the cursor on, what is done in words is what is done without a bound, however it ends,
    and it goes onward. -/
structure SafeAt (cursor : Cursor) (checked : CheckedAttempt Cursor α)
    (step : Attempt Cursor α) : Prop where
  exact : checked cursor = some (step cursor)
  onward : cursor.Onward (step cursor).2

/-- The same from every cursor whose position and data fit words. -/
def Safe (checked : CheckedAttempt Cursor α) (step : Attempt Cursor α) : Prop :=
  ∀ cursor, cursor.Fits → SafeAt cursor checked step

section
variable {checked : CheckedAttempt Cursor α} {step : Attempt Cursor α}
  {next : α → CheckedAttempt Cursor β} {next' : α → Attempt Cursor β}

theorem SafeAt.of_eq {result : Except Fault α} (hs : step cursor = (result, stop))
    (hc : checked cursor = some (result, stop)) (h : cursor.Onward stop) :
    SafeAt cursor checked step :=
  ⟨by rw [hc, hs], by rw [hs]; exact h⟩

theorem SafeAt.bind (hc : cursor.Fits) (hs : SafeAt cursor checked step)
    (hn : ∀ a t, step cursor = (.ok a, t) → t.Fits → SafeAt t (next a) (next' a)) :
    SafeAt cursor (checked >>= next) (step >>= next') := by
  have honward := hs.onward
  refine ⟨CheckedAttempt.bind_apply hs.exact fun a t h => ?_, ?_⟩
  · rw [h] at honward
    exact (hn a t h (honward.fits hc)).exact
  · rw [Attempt.bind_apply]
    rcases h : step cursor with ⟨fault | a, t⟩ <;> rw [h] at honward
    · exact honward
    · exact honward.trans (hn a t h (honward.fits hc)).onward

theorem Safe.bind (hs : Safe checked step) (hn : ∀ a, Safe (next a) (next' a)) :
    Safe (checked >>= next) (step >>= next') :=
  fun cursor hc => (hs cursor hc).bind hc fun a t _ ht => hn a t ht

theorem Safe.ite {c : Prop} [Decidable c] {checked' : CheckedAttempt Cursor α}
    {other : Attempt Cursor α} (hs : Safe checked step) (ho : Safe checked' other) :
    Safe (if c then checked else checked') (if c then step else other) := by
  by_cases hc : c
  · rwa [if_pos hc, if_pos hc]
  · rwa [if_neg hc, if_neg hc]

theorem safe_pure (a : α) : Safe (pure a) (pure a) :=
  fun _ hc => .of_eq rfl rfl (.refl hc)

theorem safe_throw (fault : Fault) : Safe (throw fault) (throw fault : Attempt Cursor α) :=
  fun _ hc => .of_eq rfl rfl (.refl hc)

end

/-! ## The steps of a cursor -/

/-- All that a step can do that needs so many bytes: it goes on knowing that they are there, or it
    fails where it began. -/
theorem get_stopOn_bind_apply (count : Nat) {next : Cursor → Nat → CheckedAttempt Cursor α}
    (hc : cursor.Fits) :
    (do
      let cursor ← get
      let stop ← cursor.stopOn count
      next cursor stop : CheckedAttempt Cursor α) cursor =
      if cursor.pos + count ≤ cursor.data.size then next cursor (cursor.pos + count) cursor
      else some (.error .outOfBounds, cursor) := by
  have hsize := hc.size_lt
  rw [CheckedAttempt.get_bind_apply, stopOn]
  by_cases hfits : cursor.pos + count ≤ cursor.data.size
  · rw [if_neg (by omega), if_neg (by omega), if_pos hfits, CheckedAttempt.liftM_pure, pure_bind]
  · -- Beyond the data it is all the same whether the sum is also too large for a word.
    rw [if_pos (Nat.lt_of_not_le hfits), ite_self, if_neg hfits]
    rfl

theorem slice_of_le {count : Nat} (h : cursor.pos + count ≤ cursor.data.size) :
    Checked.slice cursor.data cursor.pos (cursor.pos + count) =
      pure (cursor.data.extract cursor.pos (cursor.pos + count)) := by
  rw [Checked.slice, if_pos ⟨Nat.le_add_right _ _, h⟩]

theorem safe_advance (count : Nat) : Safe (advanceOn count) (advance count) := by
  intro cursor hc
  by_cases hfits : cursor.pos + count ≤ cursor.data.size
  · refine .of_eq (if_pos hfits) ?_ (onward_forward hfits)
    rw [advanceOn, get_stopOn_bind_apply count hc, if_pos hfits]
    rfl
  · refine .of_eq (if_neg hfits) ?_ (.refl hc)
    rw [advanceOn, get_stopOn_bind_apply count hc, if_neg hfits]

theorem safe_align {unit : Nat} (h : unit ≠ 0) : Safe (alignOn unit) (align unit) := by
  intro cursor hc
  have hpast : cursor.pos % unit ≤ unit := Nat.le_of_lt (Nat.mod_lt _ (Nat.pos_of_ne_zero h))
  have hrem (a : Nat) : Checked.rem a unit = pure (a % unit) := if_neg h
  have hsub : Checked.sub unit (cursor.pos % unit) = pure (unit - cursor.pos % unit) := if_pos hpast
  have hstep : alignOn unit cursor = advanceOn ((unit - cursor.pos % unit) % unit) cursor := by
    rw [alignOn, CheckedAttempt.get_bind_apply, hrem, CheckedAttempt.liftM_pure, pure_bind, hsub,
      CheckedAttempt.liftM_pure, pure_bind, hrem, CheckedAttempt.liftM_pure, pure_bind]
  obtain ⟨hexact, honward⟩ := safe_advance ((unit - cursor.pos % unit) % unit) cursor hc
  exact ⟨hstep.trans hexact, honward⟩

theorem safe_take (count : Nat) : Safe (takeOn count) (take count) := by
  intro cursor hc
  by_cases hfits : cursor.pos + count ≤ cursor.data.size
  · refine .of_eq (if_pos hfits) ?_ (onward_forward hfits)
    rw [takeOn, get_stopOn_bind_apply count hc, if_pos hfits, slice_of_le hfits]
    rfl
  · refine .of_eq (if_neg hfits) ?_ (.refl hc)
    rw [takeOn, get_stopOn_bind_apply count hc, if_neg hfits]

end Cursor

namespace LittleEndian

/-- The number in a slice of the data. -/
theorem valueAt_extract {data : ByteArray} {start stop : Nat} (hstop : stop ≤ data.size)
    (width : Nat) {pos : Nat} (h : start + pos + width ≤ stop) :
    valueAt (data.extract start stop) pos width = valueAt data (start + pos) width := by
  induction width generalizing pos with
  | zero => rfl
  | succ w ih =>
    have hin : pos < (data.extract start stop).size := by
      rw [ByteArray.size_extract]
      omega
    have hout : start + pos < data.size := by omega
    rw [valueAt, valueAt, ih (by omega), getElem?_pos (data.extract start stop) pos hin,
      getElem?_pos data (start + pos) hout, ByteArray.getElem_extract, Nat.add_assoc]

theorem valueAt_one {data : ByteArray} {pos : Nat} (h : pos < data.size) :
    UInt8.ofNat (valueAt data pos 1) = data[pos] := by
  have hvalue : valueAt data pos 1 = (data[pos]).toNat := by
    rw [valueAt, valueAt, getElem?_pos data pos h]
    rfl
  rw [hvalue]
  exact UInt8.ofNat_toNat

end LittleEndian

namespace Cursor

theorem safe_number (width : Nat) : Safe (numberOn width) (number width) := by
  intro cursor hc
  by_cases hfits : cursor.pos + width ≤ cursor.data.size
  · have hsize : (cursor.data.extract cursor.pos (cursor.pos + width)).size = width := by
      rw [ByteArray.size_extract]
      omega
    have hvalue :
        LittleEndian.valueAt (cursor.data.extract cursor.pos (cursor.pos + width)) 0 width =
          LittleEndian.valueAt cursor.data cursor.pos width :=
      LittleEndian.valueAt_extract hfits width (Nat.le_refl _)
    have hstep : number width cursor =
        (.ok (LittleEndian.valueAt cursor.data cursor.pos width), cursor.forward width) := by
      rw [number, LittleEndian.read?, if_pos hfits]
      rfl
    refine .of_eq hstep ?_ (onward_forward hfits)
    rw [numberOn, get_stopOn_bind_apply width hc, if_pos hfits, slice_of_le hfits,
      CheckedAttempt.liftM_pure, pure_bind, if_pos hsize, hvalue]
    rfl
  · have hstep : number width cursor = (.error .outOfBounds, cursor) := by
      rw [number, LittleEndian.read?, if_neg hfits]
    refine .of_eq hstep ?_ (.refl hc)
    rw [numberOn, get_stopOn_bind_apply width hc, if_neg hfits]

/-- A byte is a number of one byte. -/
theorem byte_eq : byte = number 1 >>= fun n => pure (UInt8.ofNat n) := by
  funext cursor
  by_cases hlt : cursor.pos < cursor.data.size
  · have hread : LittleEndian.read? cursor.data cursor.pos 1 =
        some (LittleEndian.valueAt cursor.data cursor.pos 1) := if_pos hlt
    rw [byte, getElem?_pos cursor.data cursor.pos hlt, Attempt.bind_apply, number, hread,
      ← LittleEndian.valueAt_one hlt]
    rfl
  · have hread : LittleEndian.read? cursor.data cursor.pos 1 = none := if_neg hlt
    rw [byte, getElem?_neg cursor.data cursor.pos hlt, Attempt.bind_apply, number, hread]

theorem safe_byte : Safe byteOn byte := by
  rw [byte_eq]
  exact (safe_number 1).bind fun n => safe_pure (UInt8.ofNat n)

theorem safe_peek : Safe peekOn peek := by
  intro cursor hc
  refine ⟨rfl, ?_⟩
  rw [peek]
  split <;> exact .refl hc

theorem safe_position : Safe positionOn position :=
  fun _ hc => .of_eq rfl rfl (.refl hc)

/-- What follows a look at the next byte knows that it is there. -/
theorem safe_peek_bind {next : UInt8 → CheckedAttempt Cursor β} {next' : UInt8 → Attempt Cursor β}
    (hn : ∀ cursor lead, cursor.Fits → peek cursor = (.ok lead, cursor) →
      SafeAt cursor (next lead) (next' lead)) :
    Safe (peekOn >>= next) (peek >>= next') := by
  intro cursor hc
  refine (safe_peek cursor hc).bind hc fun lead place hlead _ => ?_
  obtain ⟨-, rfl⟩ := peek_eq_ok hlead
  exact hn place lead hc hlead

theorem SafeAt.passByte {cursor stop : Cursor} {lead : UInt8} (hc : cursor.Fits)
    (h : peek cursor = (.ok lead, stop)) : SafeAt cursor passByteOn (advance 1) := by
  obtain ⟨hfound, -⟩ := peek_eq_ok h
  obtain ⟨hlt, -⟩ := getElem?_eq_some_iff.1 hfound
  have hfits : cursor.pos + 1 ≤ cursor.data.size := hlt
  have hsize := hc.size_lt
  refine .of_eq (if_pos hfits) ?_ (onward_forward hfits)
  rw [passByteOn, CheckedAttempt.get_bind_apply, Checked.add, if_pos (by omega)]
  rfl

end Cursor

/-! ## Compressed numbers and tokens -/

namespace Compressed

theorem safe_number : Safe numberOn number := by
  refine safe_byte.bind fun lead => (safe_pure _).ite ?_
  refine Safe.ite (safe_byte.bind fun second => safe_pure _) (Safe.ite ?_ (safe_throw _))
  intro cursor hc
  refine (safe_take 3 cursor hc).bind hc fun low stop hlow hstop => ?_
  obtain ⟨a, b, c, rfl⟩ := exists_three (size_of_take hlow)
  rw [bigEndian_three]
  exact safe_pure _ stop hstop

theorem signed_half {n : Nat} (h : n < bound) : LittleEndian.signed 4 (n / 2) = (n / 2 : Nat) := by
  have hbound : LittleEndian.bound 4 = 2 ^ 32 := rfl
  rw [bound] at h
  rw [LittleEndian.signed, hbound, Int.bmod_eq_of_le (by omega) (by omega)]

theorem subSigned_half {n : Nat} (h : n < bound) (size : Nat) :
    Checked.subSigned 32 (n / 2 : Nat) (1 <<< magnitudeBits size : Nat) =
      pure (((n / 2 : Nat) : Int) - (1 <<< magnitudeBits size : Nat)) := by
  have hweight : 1 <<< magnitudeBits size ≤ 2 ^ 28 := by
    unfold magnitudeBits
    split <;> decide
  rw [bound] at h
  generalize 1 <<< magnitudeBits size = weight at hweight ⊢
  exact if_pos (by omega)

/-- The number of bytes is no negative number, since reading goes onward. -/
theorem safe_signedNumber : Safe signedNumberOn signedNumber := by
  intro cursor hc
  refine (safe_position cursor hc).bind hc ?_
  rintro _ _ ⟨⟩ -
  refine (safe_number cursor hc).bind hc fun n stop hn hstop => ?_
  refine (safe_position stop hstop).bind hstop ?_
  rintro _ _ ⟨⟩ -
  have hle : cursor.pos ≤ stop.pos := by
    have honward := (safe_number cursor hc).onward
    rw [hn] at honward
    exact honward.le_pos
  have hbound := lt_bound_of_number hn
  have hsize : Checked.sub stop.pos cursor.pos = pure (stop.pos - cursor.pos) := if_pos hle
  rw [hsize, CheckedAttempt.liftM_pure, pure_bind, signed_half hbound]
  dsimp only
  rw [subSigned_half hbound, rotate]
  split
  · exact safe_pure _ stop hstop
  · exact safe_pure _ stop hstop

theorem safe_token : Safe tokenOn token := by
  refine safe_number.bind fun value => ?_
  cases tokenTable? value with
  | some table => exact safe_pure _
  | none => exact safe_throw _

end Compressed

/-! ## Strings -/

namespace SerializedText

theorem safe_read : Safe readOn read := by
  refine safe_peek_bind fun cursor lead hc hlead => ?_
  by_cases hnull : (lead == null) = true
  · rw [if_pos hnull, if_pos hnull]
    exact (SafeAt.passByte hc hlead).bind hc fun _ stop _ => safe_pure none stop
  · rw [if_neg hnull, if_neg hnull]
    refine Safe.bind Compressed.safe_number (fun length => ?_) cursor hc
    refine safe_position.bind fun start => (safe_take length).bind fun data => ?_
    cases Utf8.decode data with
    | ok text => exact safe_pure _
    | error flaw => exact safe_throw _

theorem safe_skip : Safe skipOn skip := by
  refine safe_peek_bind fun cursor lead hc hlead => ?_
  by_cases hnull : (lead == null) = true
  · rw [if_pos hnull, if_pos hnull]
    exact .passByte hc hlead
  · rw [if_neg hnull, if_neg hnull]
    exact Compressed.safe_number.bind (fun length => safe_advance length) cursor hc

end SerializedText

end ApiCensus
