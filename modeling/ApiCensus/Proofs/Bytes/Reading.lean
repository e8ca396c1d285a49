/-
  Steps that read exactly the bytes that were written.

  * `Cursor.Sees`: what stands between the cursor and the end.
  * `Cursor.Reads`: a step reads given bytes, whatever follows them, and stops behind them;
    `Reads.bind` puts two steps together as their bytes are put together.
  * `Cursor.reads_byte`, `reads_take`, `reads_advance`, `reads_number`, `reads_repeated`: what
    the steps of a cursor read.
-/
import ApiCensus.Bytes.Cursor
import ApiCensus.Proofs.Attempt

namespace ApiCensus

open Attempt

namespace Cursor

variable {α β : Type}

/-- The cursor `count` bytes further on. -/
def forward (cursor : Cursor) (count : Nat) : Cursor :=
  { cursor with pos := cursor.pos + count }

@[simp] theorem forward_zero (cursor : Cursor) : cursor.forward 0 = cursor := rfl

@[simp] theorem forward_forward (cursor : Cursor) (m n : Nat) :
    (cursor.forward m).forward n = cursor.forward (m + n) := by
  simp only [forward, Nat.add_assoc]

/-- The cursor stands before exactly these bytes. -/
structure Sees (cursor : Cursor) (bytes : List UInt8) : Prop where
  inside : cursor.pos ≤ cursor.data.size
  rest_eq : cursor.rest = bytes

/-- A cursor at the start of a byte string sees all of it. -/
theorem sees_start (bytes : List UInt8) : Sees { data := bytes.toByteArray } bytes :=
  ⟨Nat.zero_le _, by simp [rest]⟩

namespace Sees

variable {cursor : Cursor} {front back : List UInt8}

theorem length_add (h : cursor.Sees (front ++ back)) :
    cursor.pos + front.length + back.length = cursor.data.size := by
  have hl := congrArg List.length h.rest_eq
  have hi := h.inside
  rw [length_rest, remaining, List.length_append] at hl
  omega

theorem forward (h : cursor.Sees (front ++ back)) : (cursor.forward front.length).Sees back := by
  refine ⟨?_, ?_⟩
  · have hl := h.length_add
    simp only [Cursor.forward]
    omega
  · have hr := h.rest_eq
    simp only [rest, Cursor.forward] at hr ⊢
    rw [← List.drop_drop, hr, List.drop_left]

/-- The bytes up to a position, as far as there are any. -/
theorem extract_take {bytes : List UInt8} (h : cursor.Sees bytes) (stop : Nat) :
    cursor.data.extract cursor.pos stop = (bytes.take (stop - cursor.pos)).toByteArray := by
  apply ByteArray.ext
  apply Array.ext'
  rw [ByteArray.data_extract, Array.toList_extract, List.extract_eq_take_drop,
    List.data_toByteArray, List.toList_toArray, ← rest, h.rest_eq]

/-- The bytes that come next. -/
theorem extract (h : cursor.Sees (front ++ back)) :
    cursor.data.extract cursor.pos (cursor.pos + front.length) = front.toByteArray := by
  rw [h.extract_take, Nat.add_sub_cancel_left, List.take_left]

/-- All bytes that are left. -/
theorem extract_rest {bytes : List UInt8} (h : cursor.Sees bytes) :
    cursor.data.extract cursor.pos cursor.data.size = bytes.toByteArray := by
  have hlength := congrArg List.length h.rest_eq
  rw [length_rest, remaining] at hlength
  rw [h.extract_take, List.take_of_length_le (Nat.le_of_eq hlength.symm)]

/-- The next byte. -/
theorem getElem? {byte : UInt8} (h : cursor.Sees (byte :: back)) :
    cursor.data[cursor.pos]? = some byte := by
  have hl := Sees.length_add (show cursor.Sees ([byte] ++ back) from h)
  have hr := h.rest_eq
  simp only [List.length_singleton] at hl
  have hlt : cursor.pos < cursor.data.size := by omega
  rw [rest, List.drop_eq_getElem_cons (by simpa using hlt)] at hr
  rw [getElem?_pos cursor.data cursor.pos hlt, ByteArray.getElem_eq_getElem_data]
  exact congrArg some (by simpa using (List.cons.inj hr).1)

end Sees

/-- A cursor behind the first bytes sees the others. -/
theorem sees_behind (front back : List UInt8) :
    Sees { data := (front ++ back).toByteArray, pos := front.length } back := by
  have hs := (sees_start (front ++ back)).forward
  simp only [Cursor.forward, Nat.zero_add] at hs
  exact hs

/-! ## Steps -/

/-- The step reads these bytes, whatever follows them, and answers `a`. -/
def Reads (step : Attempt Cursor α) (bytes : List UInt8) (a : α) : Prop :=
  ∀ cursor back, cursor.Sees (bytes ++ back) → step cursor = (.ok a, cursor.forward bytes.length)

theorem reads_pure (a : α) : Reads (pure a) [] a := fun _ _ _ => rfl

theorem Reads.bind {step : Attempt Cursor α} {f : α → Attempt Cursor β}
    {front back : List UInt8} {a : α} {b : β} (hs : Reads step front a)
    (hn : Reads (f a) back b) : Reads (step >>= f) (front ++ back) b := by
  intro cursor tail h
  rw [List.append_assoc] at h
  rw [bind_apply_ok (hs cursor _ h), hn _ tail h.forward, forward_forward, List.length_append]

theorem Reads.bind_nil {step : Attempt Cursor α} {f : α → Attempt Cursor β} {bytes : List UInt8}
    {a : α} {b : β} (hs : Reads step bytes a) (hn : Reads (f a) [] b) :
    Reads (step >>= f) bytes b := by
  have hb := hs.bind hn
  rwa [List.append_nil] at hb

theorem Reads.map {step : Attempt Cursor α} {bytes : List UInt8} {a : α} (h : Reads step bytes a)
    (f : α → β) : Reads (step >>= fun a => pure (f a)) bytes (f a) :=
  h.bind_nil (reads_pure (f a))

/-- A look at the next byte reads nothing. -/
theorem Reads.peek {f : UInt8 → Attempt Cursor β} {byte : UInt8} {tail : List UInt8} {b : β}
    (h : Reads (f byte) (byte :: tail) b) : Reads (peek >>= f) (byte :: tail) b := by
  intro cursor back hc
  have hb : Cursor.peek cursor = (.ok byte, cursor) := by
    rw [Cursor.peek, Sees.getElem? hc]
  rw [bind_apply_ok hb, h cursor back hc]

theorem reads_byte (b : UInt8) : Reads byte [b] b := by
  intro cursor back h
  rw [byte, Sees.getElem? h]
  rfl

theorem reads_advance (bytes : List UInt8) : Reads (advance bytes.length) bytes () := by
  intro cursor back h
  have hl := h.length_add
  rw [advance, if_pos (by omega)]
  rfl

theorem reads_take (bytes : List UInt8) :
    Reads (take bytes.length) bytes bytes.toByteArray := by
  intro cursor back h
  have hl := h.length_add
  rw [take, if_pos (by omega), h.extract]
  rfl

end Cursor

namespace LittleEndian

/-- The number in bytes that the cursor sees. -/
theorem valueAt_encode {cursor : Cursor} {back : List UInt8} (width n : Nat)
    (h : cursor.Sees (encode width n ++ back)) :
    valueAt cursor.data cursor.pos width = n % bound width := by
  induction width generalizing cursor n with
  | zero => simp [valueAt, bound, Nat.mod_one]
  | succ w ih =>
    rw [encode, List.cons_append] at h
    have hc : cursor.Sees ([UInt8.ofNat n] ++ (encode w (n / 0x100) ++ back)) := h
    have hn := ih (n / 0x100) hc.forward
    simp only [Cursor.forward, List.length_singleton] at hn
    rw [valueAt, h.getElem?, hn, bound, Option.getD_some, UInt8.toNat_ofNat', Nat.mod_mul]

end LittleEndian

namespace Cursor

variable {α : Type}

/-- A number that fits its bytes, and what follows it. -/
theorem Sees.number {cursor : Cursor} {back : List UInt8} {width n : Nat}
    (h : cursor.Sees (LittleEndian.encode width n ++ back)) (hn : n < LittleEndian.bound width) :
    LittleEndian.valueAt cursor.data cursor.pos width = n ∧ (cursor.forward width).Sees back := by
  have hback := h.forward
  rw [LittleEndian.length_encode] at hback
  exact ⟨(LittleEndian.valueAt_encode width n h).trans (Nat.mod_eq_of_lt hn), hback⟩

theorem reads_number {width n : Nat} (hn : n < LittleEndian.bound width) :
    Reads (number width) (LittleEndian.encode width n) n := by
  intro cursor back h
  have hl := h.length_add
  rw [LittleEndian.length_encode] at hl
  rw [number, LittleEndian.read?, if_pos (by omega), (h.number hn).1, LittleEndian.length_encode]
  rfl

/-- The step that reads a number, whatever step follows. -/
theorem Sees.number_bind {cursor : Cursor} {back : List UInt8} {width n : Nat}
    (h : cursor.Sees (LittleEndian.encode width n ++ back)) (hn : n < LittleEndian.bound width) :
    (∀ {α : Type} {f : Nat → Attempt Cursor α},
        (Cursor.number width >>= f) cursor = f n (cursor.forward width)) ∧
      (cursor.forward width).Sees back := by
  refine ⟨fun {_ _} => ?_, (h.number hn).2⟩
  rw [bind_apply_ok (reads_number hn cursor back h), LittleEndian.length_encode]

/-- Steps that read one thing each read all of them. -/
theorem reads_repeated_map {ι : Type} {step : Attempt Cursor α} {encode : ι → List UInt8}
    {answer : ι → α} {items : List ι} (h : ∀ item ∈ items, Reads step (encode item) (answer item)) :
    Reads (repeated step items.length) (items.flatMap encode) (items.map answer) := by
  induction items with
  | nil => exact reads_pure []
  | cons item items ih =>
    have hi := h item (by simp)
    have hr := ih fun other ho => h other (by simp [ho])
    rw [List.flatMap_cons]
    exact hi.bind (hr.map _)

/-- The same where the items are the answers. -/
theorem reads_repeated {step : Attempt Cursor α} {encode : α → List UInt8} {items : List α}
    (h : ∀ item ∈ items, Reads step (encode item) item) :
    Reads (repeated step items.length) (items.flatMap encode) items := by
  have hr : Reads (repeated step items.length) (items.flatMap encode) (items.map id) :=
    reads_repeated_map h
  rwa [List.map_id] at hr

end Cursor

end ApiCensus
