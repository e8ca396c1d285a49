/-
  Steps that do not look at what stands behind.

  * `Cursor.extend`: the same place in data that goes on behind.
  * `Cursor.Local`: a step that ends well ends alike in data that goes on; `Local.bind` and its
    companions derive it from the parts, and `Rereads.isLocal` from what the step has read.
  * `Cursor.Spans`: a step that ended well has gone over so many bytes.
-/
import ApiCensus.Proofs.Bytes.Rereading

namespace ApiCensus

open Attempt

variable {α β : Type}

namespace Cursor

/-- The same place in data that goes on behind. -/
def extend (cursor : Cursor) (more : ByteArray) : Cursor :=
  { cursor with data := cursor.data ++ more }

variable {start stop : Cursor} {more : ByteArray} {bytes : List UInt8}

theorem le_size_extend (h : start.pos ≤ start.data.size) :
    (start.extend more).pos ≤ (start.extend more).data.size := by
  simp only [extend, ByteArray.size_append]
  omega

theorem rest_extend (h : start.pos ≤ start.data.size) :
    (start.extend more).rest = start.rest ++ more.data.toList := by
  have hle : start.pos ≤ start.data.data.toList.length := by simpa using h
  simp only [rest, extend, ByteArray.data_append, Array.toList_append]
  rw [List.drop_append_of_le_length hle]

theorem Sees.extend (h : start.Sees bytes) (more : ByteArray) :
    (start.extend more).Sees (bytes ++ more.data.toList) :=
  ⟨le_size_extend h.inside, by rw [rest_extend h.inside, h.rest_eq]⟩

/-! ## Local steps -/

/-- A step that ends well inside the data does so too, with the same answer and at the same place,
    if the data goes on. -/
def Local (step : Attempt Cursor α) : Prop :=
  ∀ start a stop more, start.pos ≤ start.data.size → step start = (.ok a, stop) →
    stop.pos ≤ stop.data.size ∧ step (start.extend more) = (.ok a, stop.extend more)

variable {step : Attempt Cursor α} {next : α → Attempt Cursor β}

theorem Local.bind (hs : Local step) (hn : ∀ a, Local (next a)) : Local (step >>= next) := by
  intro start b stop more hin h
  obtain ⟨a, middle, hstep, hnext⟩ := bind_eq_ok h
  obtain ⟨hmiddle, hfirst⟩ := hs start a middle more hin hstep
  obtain ⟨hstop, hsecond⟩ := hn a middle b stop more hmiddle hnext
  exact ⟨hstop, by rw [bind_apply_ok hfirst, hsecond]⟩

theorem Local.ite {c : Prop} [Decidable c] {other : Attempt Cursor α} (hs : Local step)
    (ho : Local other) : Local (if c then step else other) := by
  by_cases hc : c
  · rwa [if_pos hc]
  · rwa [if_neg hc]

/-- What has been read is read again in data that goes on. -/
theorem Rereads.isLocal (h : Rereads step) : Local step := by
  intro start a stop more hin hstep
  obtain ⟨bytes, hpasses, hread⟩ := h start a stop hin hstep
  have hsees := hpasses.1.extend more
  rw [List.append_assoc] at hsees
  refine ⟨hpasses.inside, ?_⟩
  rw [hread _ _ hsees, hpasses.2]
  rfl

theorem local_pure (a : α) : Local (pure a) :=
  (rereads_pure a).isLocal

theorem local_throw (fault : Fault) : Local (throw fault : Attempt Cursor α) :=
  (rereads_throw fault).isLocal

theorem local_position : Local position := by
  rintro start _ _ more hin ⟨⟩
  exact ⟨hin, rfl⟩

theorem local_peek : Local peek := by
  intro start next stop more hin h
  obtain ⟨hnext, rfl⟩ := peek_eq_ok h
  have hsees := (passes_of_getElem? hnext).1.extend more
  refine ⟨hin, ?_⟩
  rw [peek, hsees.getElem?]

theorem local_seek (pos : Nat) : Local (seek pos) := by
  intro start _ stop more _ h
  obtain ⟨hle, rfl⟩ := seek_eq_ok h
  refine ⟨hle, ?_⟩
  rw [seek, if_pos (by simp only [extend, ByteArray.size_append]; omega)]
  rfl

theorem local_align (unit : Nat) : Local (align unit) :=
  fun start => (rereads_advance ((unit - start.pos % unit) % unit)).isLocal start

/-! ## How far a step goes -/

/-- A step that ended well inside the data has gone over `count` bytes. -/
def Spans (step : Attempt Cursor α) (count : Nat) : Prop :=
  ∀ start a stop, start.pos ≤ start.data.size → step start = (.ok a, stop) →
    ∃ bytes, bytes.length = count ∧ start.Passes bytes stop

theorem spans_pure (a : α) : Spans (pure a) 0 := by
  rintro start _ _ hin ⟨⟩
  exact ⟨[], rfl, .refl hin⟩

theorem Spans.bind {front back : Nat} (hs : Spans step front) (hn : ∀ a, Spans (next a) back) :
    Spans (step >>= next) (front + back) := by
  intro start b stop hin h
  obtain ⟨a, middle, hstep, hnext⟩ := bind_eq_ok h
  obtain ⟨bytes, rfl, hpasses⟩ := hs start a middle hin hstep
  obtain ⟨others, rfl, hpasses'⟩ := hn a middle b stop hpasses.inside hnext
  exact ⟨bytes ++ others, List.length_append, hpasses.trans hpasses'⟩

theorem Spans.ite {c : Prop} [Decidable c] {other : Attempt Cursor α} {count : Nat}
    (hs : Spans step count) (ho : Spans other count) :
    Spans (if c then step else other) count := by
  by_cases hc : c
  · rwa [if_pos hc]
  · rwa [if_neg hc]

theorem spans_number (width : Nat) : Spans (number width) width := by
  intro start n stop _ h
  obtain ⟨bytes, hlength, -, hpasses⟩ := passes_of_number h
  exact ⟨bytes, hlength, hpasses⟩

theorem spans_advance (count : Nat) : Spans (advance count) count :=
  fun _ _ _ _ h => passes_of_advance h

/-- As many results as runs, each of which goes over as many bytes. -/
theorem Spans.repeated {size count : Nat} {items : List α} (hs : Spans step size)
    (hin : start.pos ≤ start.data.size)
    (h : Attempt.repeated step count start = (.ok items, stop)) :
    items.length = count ∧ ∃ bytes, bytes.length = size * count ∧ start.Passes bytes stop := by
  induction count generalizing start items with
  | zero =>
    obtain ⟨⟨⟩⟩ := h
    exact ⟨rfl, [], rfl, .refl hin⟩
  | succ count ih =>
    obtain ⟨first, middle, hfirst, h⟩ := bind_eq_ok h
    obtain ⟨rest, _, hrest, ⟨⟩⟩ := bind_eq_ok h
    obtain ⟨bytes, hbytes, hpasses⟩ := hs start first middle hin hfirst
    obtain ⟨hlength, others, hothers, hpasses'⟩ := ih hpasses.inside hrest
    refine ⟨by rw [List.length_cons, hlength], bytes ++ others, ?_, hpasses.trans hpasses'⟩
    rw [List.length_append, hbytes, hothers, Nat.mul_succ, Nat.add_comm]

end Cursor

end ApiCensus
