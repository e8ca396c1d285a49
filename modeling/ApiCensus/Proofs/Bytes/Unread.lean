/-
  What reading leaves unread.

  * `ReadsOn`: a step never leaves more bytes unread than there were.
  * `readsOn_number`, `readsOn_token`: so it is with the steps that signatures are read by.
  * `Cursor.remaining_of_byte`: after a byte there are fewer.
  * `Heap.size_blob_le`: a byte string of a heap is no longer than the heap.
-/
import ApiCensus.Metadata.Heap
import ApiCensus.Proofs.Bytes.Passing

namespace ApiCensus

open Attempt

variable {α β : Type}

/-- However the step ends, it leaves at most as many bytes unread as there were. -/
def ReadsOn (step : Attempt Cursor α) : Prop :=
  ∀ unread, Keeps (fun cursor => cursor.remaining ≤ unread) step

section
variable {step : Attempt Cursor α} {next : α → Attempt Cursor β}

theorem readsOn_pure (a : α) : ReadsOn (pure a) :=
  fun _ => Keeps.pure a

theorem readsOn_throw (fault : Fault) : ReadsOn (throw fault : Attempt Cursor α) :=
  fun _ => Keeps.throw fault

theorem ReadsOn.bind (hs : ReadsOn step) (hn : ∀ a, ReadsOn (next a)) : ReadsOn (step >>= next) :=
  fun unread => (hs unread).bind fun a => hn a unread

theorem ReadsOn.ite {c : Prop} [Decidable c] {other : Attempt Cursor α} (hs : ReadsOn step)
    (ho : ReadsOn other) : ReadsOn (if c then step else other) := by
  split
  · exact hs
  · exact ho

theorem ReadsOn.repeated (hs : ReadsOn step) (count : Nat) :
    ReadsOn (Attempt.repeated step count) := by
  induction count with
  | zero => exact readsOn_pure []
  | succ count ih => exact hs.bind fun _ => ih.bind fun _ => readsOn_pure _

end

namespace Cursor

theorem remaining_behind_le (cursor : Cursor) (count : Nat) :
    Cursor.remaining { cursor with pos := cursor.pos + count } ≤ cursor.remaining := by
  simp only [remaining]
  omega

theorem readsOn_advance (count : Nat) : ReadsOn (advance count) := by
  intro unread cursor h
  unfold advance
  split
  · exact Nat.le_trans (remaining_behind_le cursor count) h
  · exact h

theorem readsOn_peek : ReadsOn peek := by
  intro unread cursor h
  unfold peek
  split <;> exact h

theorem readsOn_position : ReadsOn position :=
  fun _ _ h => h

theorem readsOn_take (count : Nat) : ReadsOn (take count) := by
  intro unread cursor h
  unfold take
  split
  · exact Nat.le_trans (remaining_behind_le cursor count) h
  · exact h

theorem readsOn_byte : ReadsOn byte := by
  intro unread cursor h
  unfold byte
  split
  · exact Nat.le_trans (remaining_behind_le cursor 1) h
  · exact h

theorem size_le_of_take {count : Nat} {cursor cursor' : Cursor} {data : ByteArray}
    (h : take count cursor = (.ok data, cursor')) : data.size ≤ cursor.remaining := by
  obtain ⟨hfits, -, -⟩ := take_eq_ok h
  rw [size_of_take h, remaining]
  omega

theorem remaining_of_byte {cursor cursor' : Cursor} {code : UInt8}
    (h : byte cursor = (.ok code, cursor')) : cursor'.remaining + 1 = cursor.remaining := by
  obtain ⟨hbyte, rfl⟩ := byte_eq_ok h
  obtain ⟨hpos, -⟩ := getElem?_eq_some_iff.1 hbyte
  have hlt : cursor.pos < cursor.data.size := hpos
  simp only [remaining, forward]
  omega

end Cursor

namespace Compressed

open Cursor

theorem readsOn_number : ReadsOn number := by
  refine readsOn_byte.bind fun lead => (readsOn_pure _).ite ?_
  refine ReadsOn.ite (readsOn_byte.bind fun second => readsOn_pure _) ?_
  exact ReadsOn.ite ((readsOn_take 3).bind fun low => readsOn_pure _) (readsOn_throw _)

theorem readsOn_signedNumber : ReadsOn signedNumber :=
  readsOn_position.bind fun _ => readsOn_number.bind fun _ => readsOn_position.bind fun _ =>
    readsOn_pure _

theorem readsOn_token : ReadsOn token := by
  refine readsOn_number.bind fun value => ?_
  split
  · exact readsOn_pure _
  · exact readsOn_throw _

end Compressed

/-- A byte string of a heap is no longer than the heap. -/
theorem Heap.size_blob_le {heap data : ByteArray} {index : Nat} (h : blob heap index = .ok data) :
    data.size ≤ heap.size := by
  unfold blob at h
  split at h
  · obtain rfl := Except.ok.inj h
    exact Nat.zero_le _
  · split at h
    · simp at h
    · obtain ⟨count, cursor, hcount, htake⟩ := bind_eq_ok (Prod.ext h rfl)
      have hread := Compressed.readsOn_number heap.size { data := heap, pos := index }
        (Nat.sub_le _ _)
      rw [hcount] at hread
      exact Nat.le_trans (Cursor.size_le_of_take htake) hread

end ApiCensus
