/-
  How many bytes a step uses up.

  * `Cursor.Spends`: from one cursor another one of the same data is reached, and so many bytes
    less are left.
  * `Cursor.Costs`: a step that ends well spends so many bytes at least; `Costs.bind` and its
    companions derive it from the parts.
  * `Compressed.costs_number`, `SerializedText.costs_read`, `costs_skip`: none of them is free.
-/
import ApiCensus.Bytes.Compressed
import ApiCensus.Proofs.Bytes.Passing

namespace ApiCensus

open Attempt

variable {α β : Type}

namespace Cursor

variable {start middle stop : Cursor} {count more : Nat}

/-- The data is the same, and of the bytes that are left `count` fewer are left at the other cursor,
    or fewer still. -/
structure Spends (start : Cursor) (count : Nat) (stop : Cursor) : Prop where
  data_eq : stop.data = start.data
  paid : stop.remaining + count ≤ start.remaining

theorem Spends.refl (cursor : Cursor) : cursor.Spends 0 cursor :=
  ⟨rfl, Nat.le_refl _⟩

theorem Spends.trans (hf : start.Spends count middle) (hs : middle.Spends more stop) :
    start.Spends (count + more) stop := by
  have hfirst := hf.paid
  have hsecond := hs.paid
  exact ⟨hs.data_eq.trans hf.data_eq, by omega⟩

theorem Spends.mono (h : start.Spends count stop) (hle : more ≤ count) :
    start.Spends more stop := by
  have hpaid := h.paid
  exact ⟨h.data_eq, by omega⟩

/-- What is spent lies between the two cursors. -/
theorem Spends.le_pos (h : start.Spends count stop) (hcount : 0 < count) :
    start.pos + count ≤ stop.pos := by
  have hpaid := h.paid
  rw [remaining, remaining, h.data_eq] at hpaid
  omega

theorem spends_forward (h : start.pos + count ≤ start.data.size) :
    start.Spends count (start.forward count) := by
  refine ⟨rfl, ?_⟩
  simp only [remaining, forward]
  omega

/-! ## Steps -/

/-- A step that ends well spends so many bytes at least. -/
def Costs (step : Attempt Cursor α) (count : Nat) : Prop :=
  ∀ start a stop, step start = (.ok a, stop) → start.Spends count stop

variable {step : Attempt Cursor α} {next : α → Attempt Cursor β}

theorem costs_pure (a : α) : Costs (pure a) 0 := by
  rintro start _ _ ⟨⟩
  exact .refl start

theorem costs_throw (fault : Fault) : Costs (throw fault : Attempt Cursor α) count :=
  fun _ _ _ h => absurd (congrArg Prod.fst h) (by simp)

theorem Costs.bind (hs : Costs step count) (hn : ∀ a, Costs (next a) more) :
    Costs (step >>= next) (count + more) := by
  intro start b stop h
  obtain ⟨a, middle, hstep, hnext⟩ := bind_eq_ok h
  exact (hs start a middle hstep).trans (hn a middle b stop hnext)

theorem Costs.ite {c : Prop} [Decidable c] {other : Attempt Cursor α} (hs : Costs step count)
    (ho : Costs other count) : Costs (if c then step else other) count := by
  by_cases hc : c
  · rwa [if_pos hc]
  · rwa [if_neg hc]

theorem Costs.mono (h : Costs step count) (hle : more ≤ count) : Costs step more :=
  fun start a stop hstep => (h start a stop hstep).mono hle

theorem costs_byte : Costs byte 1 := by
  intro start b stop h
  obtain ⟨hbyte, rfl⟩ := byte_eq_ok h
  obtain ⟨hlt, -⟩ := getElem?_eq_some_iff.1 hbyte
  exact spends_forward hlt

theorem costs_number (width : Nat) : Costs (number width) width := by
  intro start n stop h
  obtain ⟨hfits, -, rfl⟩ := number_eq_ok h
  exact spends_forward hfits

theorem costs_advance (count : Nat) : Costs (advance count) count := by
  intro start _ stop h
  obtain ⟨hfits, rfl⟩ := advance_eq_ok h
  exact spends_forward hfits

theorem costs_take (count : Nat) : Costs (take count) count := by
  intro start data stop h
  obtain ⟨hfits, -, rfl⟩ := take_eq_ok h
  exact spends_forward hfits

theorem costs_peek : Costs peek 0 := by
  intro start next stop h
  obtain ⟨-, rfl⟩ := peek_eq_ok h
  exact .refl stop

theorem costs_position : Costs position 0 := by
  rintro start _ _ ⟨⟩
  exact .refl start

end Cursor

open Cursor

/-- The first byte tells how many follow, so there is one at least. -/
theorem Compressed.costs_number : Costs number 1 := by
  refine costs_byte.bind fun lead => (costs_pure _).ite (Costs.ite ?_ (Costs.ite ?_ ?_))
  · exact (costs_byte.bind fun _ => costs_pure _).mono (Nat.zero_le 1)
  · exact ((costs_take 3).bind fun _ => costs_pure _).mono (Nat.zero_le 3)
  · exact costs_throw _

namespace SerializedText

theorem costs_skip : Costs skip 1 := by
  refine costs_peek.bind fun lead => Costs.ite (costs_advance 1) ?_
  exact Compressed.costs_number.bind fun length => (costs_advance length).mono (Nat.zero_le length)

theorem costs_read : Costs read 1 := by
  refine costs_peek.bind fun lead => Costs.ite ((costs_advance 1).bind fun _ => costs_pure none) ?_
  refine Compressed.costs_number.bind fun length => ?_
  refine (costs_position.bind fun start => (costs_take length).bind fun data => ?_).mono
    (Nat.zero_le (0 + (length + 0)))
  split
  · exact costs_pure _
  · exact costs_throw _

end SerializedText

end ApiCensus
