/-
  What has been read is read again.

  * `Cursor.Passes.unique`: the bytes that a cursor has gone over.
  * `Cursor.Rereads`: a step that ended well has read bytes that it reads again wherever they
    stand; `Rereads.bind` and its companions derive it from the parts.
  * `Compressed.rereads_number`, `rereads_signedNumber`, `rereads_token`: so it is with the steps
    that signatures are read by.
-/
import ApiCensus.Bytes.Compressed
import ApiCensus.Proofs.Bytes.Passing

namespace ApiCensus

open Attempt

variable {α β : Type}

namespace Cursor

variable {start middle stop : Cursor} {bytes bytes' : List UInt8}

theorem Passes.refl (h : start.pos ≤ start.data.size) : start.Passes [] start :=
  ⟨⟨h, rfl⟩, rfl⟩

theorem Passes.unique (h : start.Passes bytes stop) (h' : start.Passes bytes' stop) :
    bytes = bytes' := by
  have hrest := h.1.rest_eq.symm.trans h'.1.rest_eq
  exact List.append_cancel_right hrest

theorem Passes.data_eq (h : start.Passes bytes stop) : stop.data = start.data := by
  rw [h.2]
  rfl

theorem Passes.pos_eq (h : start.Passes bytes stop) : stop.pos = start.pos + bytes.length := by
  rw [h.2]
  rfl

theorem Passes.inside (h : start.Passes bytes stop) : stop.pos ≤ stop.data.size := by
  have hs := h.1.forward.inside
  rwa [← h.2] at hs

/-! ## Steps that read again -/

/-- A step that ended well has read bytes that it reads again wherever they stand. -/
def Rereads (step : Attempt Cursor α) : Prop :=
  ∀ start a stop, start.pos ≤ start.data.size → step start = (.ok a, stop) →
    ∃ bytes, start.Passes bytes stop ∧ Reads step bytes a

variable {step : Attempt Cursor α} {next : α → Attempt Cursor β}

theorem rereads_pure (a : α) : Rereads (pure a) := by
  rintro start _ _ hin ⟨⟩
  exact ⟨[], .refl hin, reads_pure a⟩

theorem rereads_throw (fault : Fault) : Rereads (throw fault : Attempt Cursor α) :=
  fun _ _ _ _ h => absurd (congrArg Prod.fst h) (by simp)

theorem Rereads.bind (hs : Rereads step) (hn : ∀ a, Rereads (next a)) :
    Rereads (step >>= next) := by
  intro start b stop hin h
  obtain ⟨a, middle, hstep, hnext⟩ := bind_eq_ok h
  obtain ⟨front, hfront, hread⟩ := hs start a middle hin hstep
  obtain ⟨back, hback, hread'⟩ := hn a middle b stop hfront.inside hnext
  exact ⟨front ++ back, hfront.trans hback, hread.bind hread'⟩

theorem Rereads.ite {c : Prop} [Decidable c] {other : Attempt Cursor α} (hs : Rereads step)
    (ho : Rereads other) : Rereads (if c then step else other) := by
  by_cases hc : c
  · rwa [if_pos hc]
  · rwa [if_neg hc]

theorem Rereads.repeated (hs : Rereads step) (count : Nat) :
    Rereads (Attempt.repeated step count) := by
  induction count with
  | zero => exact rereads_pure []
  | succ count ih => exact hs.bind fun _ => ih.bind fun _ => rereads_pure _

theorem rereads_byte : Rereads byte :=
  fun _ b _ _ h => ⟨[b], passes_of_byte h, reads_byte b⟩

theorem rereads_take (count : Nat) : Rereads (take count) := by
  intro start data stop _ h
  obtain ⟨hfits, rfl, rfl⟩ := take_eq_ok h
  obtain ⟨bytes, rfl, hpasses⟩ := exists_passes hfits
  rw [hpasses.1.extract]
  exact ⟨bytes, hpasses, reads_take bytes⟩

theorem rereads_advance (count : Nat) : Rereads (advance count) := by
  intro start _ stop _ h
  obtain ⟨bytes, rfl, hpasses⟩ := passes_of_advance h
  exact ⟨bytes, hpasses, reads_advance bytes⟩

theorem rereads_number (width : Nat) : Rereads (number width) := by
  intro start n stop _ h
  obtain ⟨bytes, rfl, rfl, hpasses⟩ := passes_of_number h
  have hread := reads_number (LittleEndian.value_lt_bound bytes)
  rw [LittleEndian.encode_value] at hread
  exact ⟨bytes, hpasses, hread⟩

end Cursor

namespace Compressed

open Cursor

theorem rereads_number : Rereads number := by
  refine rereads_byte.bind fun lead => (rereads_pure _).ite ?_
  refine Rereads.ite (rereads_byte.bind fun second => rereads_pure _) ?_
  exact Rereads.ite ((rereads_take 3).bind fun low => rereads_pure _) (rereads_throw _)

/-- The weight of the sign depends on the number of bytes, but not on where they stand. -/
theorem reads_signedNumber_of_number {bytes : List UInt8} {n : Nat} (h : Reads number bytes n) :
    Reads signedNumber bytes (rotate bytes.length n) := by
  intro cursor back hc
  have hstart : position cursor = (.ok cursor.pos, cursor) := rfl
  have hstop : position (cursor.forward bytes.length) =
      (.ok (cursor.pos + bytes.length), cursor.forward bytes.length) := rfl
  rw [signedNumber, bind_apply_ok hstart, bind_apply_ok (h cursor back hc), bind_apply_ok hstop,
    Nat.add_sub_cancel_left]
  rfl

theorem rereads_signedNumber : Rereads signedNumber := by
  intro start value stop hin h
  obtain ⟨_, _, ⟨⟩, hrest⟩ := bind_eq_ok h
  obtain ⟨n, place, hnumber, hlast⟩ := bind_eq_ok hrest
  obtain ⟨_, _, ⟨⟩, hvalue⟩ := bind_eq_ok hlast
  obtain ⟨hrotated, rfl⟩ := Prod.mk.inj hvalue
  obtain ⟨bytes, hpasses, hread⟩ := rereads_number start n place hin hnumber
  have hsigned := reads_signedNumber_of_number hread
  have hlength : place.pos - start.pos = bytes.length := by
    rw [hpasses.pos_eq, Nat.add_sub_cancel_left]
  rw [hlength] at hrotated
  rw [Except.ok.inj hrotated] at hsigned
  exact ⟨bytes, hpasses, hsigned⟩

theorem rereads_token : Rereads token := by
  refine rereads_number.bind fun value => ?_
  split
  · exact rereads_pure _
  · exact rereads_throw _

end Compressed

end ApiCensus
