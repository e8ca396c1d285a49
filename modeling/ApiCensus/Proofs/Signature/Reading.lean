/-
  Reading a signature while something is built, from the bytes that were written.

  * `Decoding.Reads`: given bytes are read, whatever follows them, and something that is kept of
    the other state is still so afterwards.
  * `Decoding.Ends`: the answer is known, but not how far the reading got.
  * `Decoding.ReadsOr`: the bytes are read if a condition holds, else the answer is another one.
  * `Decoding.ReadsWithin`: the bytes are read if a bound on the depth is kept, else the bound
    is the fault.
-/
import ApiCensus.Proofs.Bytes.Reading
import ApiCensus.Signature.Decoder

namespace ApiCensus.Signature.Decoding

open Attempt

variable {σ α β : Type} {kept : σ → Prop}

/-- The bytes are read, whatever follows them, and the answer is `a`. -/
def Reads (kept : σ → Prop) (decoding : Decoding σ α) (bytes : List UInt8) (a : α) : Prop :=
  ∀ cursor state back, cursor.Sees (bytes ++ back) → kept state →
    ∃ state', kept state' ∧
      decoding (cursor, state) = (.ok a, (cursor.forward bytes.length, state'))

/-- The answer is `result`, whatever follows the bytes. -/
def Ends (kept : σ → Prop) (decoding : Decoding σ α) (bytes : List UInt8)
    (result : Except Fault α) : Prop :=
  ∀ cursor state back, cursor.Sees (bytes ++ back) → kept state →
    ∃ place, kept place.2 ∧ decoding (cursor, state) = (result, place)

/-! ## Steps -/

theorem reads_pure (a : α) : Reads kept (pure a) [] a :=
  fun _ state _ _ hk => ⟨state, hk, rfl⟩

theorem reads_read {step : Attempt Cursor α} {bytes : List UInt8} {a : α}
    (h : Cursor.Reads step bytes a) : Reads kept (read step) bytes a := by
  intro cursor state back hc hk
  refine ⟨state, hk, ?_⟩
  rw [read, onPart, h cursor back hc]

theorem reads_byte (byte : UInt8) : Reads kept (read Cursor.byte) [byte] byte :=
  reads_read (Cursor.reads_byte byte)

theorem reads_build {step : Attempt σ α} {a : α}
    (h : ∀ state, kept state → ∃ state', kept state' ∧ step state = (.ok a, state')) :
    Reads kept (build step) [] a := by
  intro cursor state back _ hk
  obtain ⟨state', hk', hs⟩ := h state hk
  refine ⟨state', hk', ?_⟩
  rw [build, onPart, hs]
  rfl

theorem reads_ofExcept {result : Except Fault α} {a : α} (h : result = .ok a) :
    Reads kept (liftM result) [] a := by
  intro cursor state back _ hk
  exact ⟨state, hk, by rw [liftM_apply, h]; rfl⟩

/-- A reading at another place does not move the cursor. -/
theorem Reads.aside {decoding : Decoding σ α} {bytes back : List UInt8} {a : α} {place : Cursor}
    (h : Reads kept decoding bytes a) (hp : place.Sees (bytes ++ back)) :
    Reads kept (aside place decoding) [] (a, place.forward bytes.length) := by
  intro cursor state _ _ hk
  obtain ⟨state', hk', hr⟩ := h place state back hp hk
  refine ⟨state', hk', ?_⟩
  rw [Decoding.aside, hr]
  rfl

/-! ## Sequences -/

section
variable {d : Decoding σ α} {f : α → Decoding σ β} {front back : List UInt8} {a : α} {b : β}

theorem Reads.bind (hd : Reads kept d front a) (hf : Reads kept (f a) back b) :
    Reads kept (d >>= f) (front ++ back) b := by
  intro cursor state tail hc hk
  rw [List.append_assoc] at hc
  obtain ⟨state₁, hk₁, h₁⟩ := hd cursor state _ hc hk
  obtain ⟨state₂, hk₂, h₂⟩ := hf _ state₁ tail hc.forward hk₁
  refine ⟨state₂, hk₂, ?_⟩
  rw [bind_apply_ok h₁, h₂, Cursor.forward_forward, List.length_append]

theorem Reads.bind_nil (hd : Reads kept d front a) (hf : Reads kept (f a) [] b) :
    Reads kept (d >>= f) front b := by
  have h := hd.bind hf
  rwa [List.append_nil] at h

theorem Reads.bind_ends {result : Except Fault β} (hd : Reads kept d front a)
    (hf : Ends kept (f a) back result) : Ends kept (d >>= f) (front ++ back) result := by
  intro cursor state tail hc hk
  rw [List.append_assoc] at hc
  obtain ⟨state₁, hk₁, h₁⟩ := hd cursor state _ hc hk
  obtain ⟨place, hp, h₂⟩ := hf _ state₁ tail hc.forward hk₁
  exact ⟨place, hp, by rw [bind_apply_ok h₁, h₂]⟩

theorem Ends.bind_error {fault : Fault} (hd : Ends kept d front (.error fault)) :
    Ends kept (d >>= f) (front ++ back) (.error fault) := by
  intro cursor state tail hc hk
  rw [List.append_assoc] at hc
  obtain ⟨place, hp, h⟩ := hd cursor state _ hc hk
  exact ⟨place, hp, bind_apply_error h⟩

theorem Reads.ends (hd : Reads kept d front a) : Ends kept d (front ++ back) (.ok a) := by
  intro cursor state tail hc hk
  rw [List.append_assoc] at hc
  obtain ⟨state', hk', h⟩ := hd cursor state _ hc hk
  exact ⟨_, hk', h⟩

theorem Ends.bind_pure (hd : Ends kept d front (.ok a)) (hf : f a = pure b) :
    Ends kept (d >>= f) (front ++ back) (.ok b) := by
  intro cursor state tail hc hk
  rw [List.append_assoc] at hc
  obtain ⟨place, hp, h⟩ := hd cursor state _ hc hk
  exact ⟨place, hp, by rw [bind_apply_ok h, hf]; rfl⟩

theorem Reads.ite_pos {c : Prop} [Decidable c] {other : Decoding σ α} (hc : c)
    (hd : Reads kept d front a) : Reads kept (if c then d else other) front a := by
  rwa [if_pos hc]

theorem Reads.ite_neg {c : Prop} [Decidable c] {other : Decoding σ α} (hc : ¬ c)
    (hd : Reads kept d front a) : Reads kept (if c then other else d) front a := by
  rwa [if_neg hc]

/-- A look at the next byte reads nothing. -/
theorem Reads.peek {f : UInt8 → Decoding σ β} {byte : UInt8} {tail : List UInt8}
    (h : Reads kept (f byte) (byte :: tail) b) :
    Reads kept (read Cursor.peek >>= f) (byte :: tail) b := by
  intro cursor state back hc hk
  have hp : read Cursor.peek (cursor, state) = (.ok byte, (cursor, state)) := by
    rw [read, onPart, Cursor.peek, Cursor.Sees.getElem? hc]
  obtain ⟨state', hk', h'⟩ := h cursor state back hc hk
  exact ⟨state', hk', by rw [bind_apply_ok hp, h']⟩

theorem Ends.peek {f : UInt8 → Decoding σ β} {byte : UInt8} {tail : List UInt8}
    {result : Except Fault β} (h : Ends kept (f byte) (byte :: tail) result) :
    Ends kept (read Cursor.peek >>= f) (byte :: tail) result := by
  intro cursor state back hc hk
  have hp : read Cursor.peek (cursor, state) = (.ok byte, (cursor, state)) := by
    rw [read, onPart, Cursor.peek, Cursor.Sees.getElem? hc]
  obtain ⟨place, hk', h'⟩ := h cursor state back hc hk
  exact ⟨place, hk', by rw [bind_apply_ok hp, h']⟩

end

/-! ## Reading under a condition -/

/-- If `known` holds, the bytes are read and the answer is `a`; else the answer is `other`. -/
structure ReadsOr (kept : σ → Prop) (known : Prop) (d : Decoding σ α) (bytes : List UInt8) (a : α)
    (other : Except Fault α) : Prop where
  reads : known → Reads kept d bytes a
  ends : ¬ known → Ends kept d bytes other

section
variable {d : Decoding σ α} {f : α → Decoding σ β} {front back : List UInt8} {a : α} {b : β}
  {p q : Prop} {other : Except Fault β}

theorem Reads.readsOr {other : Except Fault α} (h : Reads kept d front a) :
    ReadsOr kept True d front a other :=
  ⟨fun _ => h, fun hn => absurd trivial hn⟩

theorem ReadsOr.congr {other : Except Fault α} (h : ReadsOr kept p d front a other) (hpq : p ↔ q) :
    ReadsOr kept q d front a other :=
  ⟨fun hq => h.reads (hpq.2 hq), fun hn => h.ends fun hp => hn (hpq.1 hp)⟩

theorem Reads.bind_or (hd : Reads kept d front a) (hf : ReadsOr kept q (f a) back b other) :
    ReadsOr kept q (d >>= f) (front ++ back) b other :=
  ⟨fun hq => hd.bind (hf.reads hq), fun hn => hd.bind_ends (hf.ends hn)⟩

theorem ReadsOr.peek {f : UInt8 → Decoding σ β} {byte : UInt8} {tail : List UInt8}
    (h : ReadsOr kept p (f byte) (byte :: tail) b other) :
    ReadsOr kept p (read Cursor.peek >>= f) (byte :: tail) b other :=
  ⟨fun hp => (h.reads hp).peek, fun hn => (h.ends hn).peek⟩

/-- The bytes are read if `fits` holds; else types nest too deep. -/
abbrev ReadsWithin (kept : σ → Prop) (fits : Prop) (d : Decoding σ α) (bytes : List UInt8)
    (a : α) : Prop :=
  ReadsOr kept fits d bytes a (.error (.tooDeep maxDepth))

theorem ReadsWithin.bind (hd : ReadsWithin kept p d front a)
    (hf : ReadsWithin kept q (f a) back b) :
    ReadsWithin kept (p ∧ q) (d >>= f) (front ++ back) b := by
  refine ⟨fun h => (hd.reads h.1).bind (hf.reads h.2), fun hn => ?_⟩
  by_cases hp : p
  · exact (hd.reads hp).bind_ends (hf.ends fun hq => hn ⟨hp, hq⟩)
  · exact (hd.ends hp).bind_error

theorem ReadsWithin.bind_reads (hd : ReadsWithin kept p d front a)
    (hf : Reads kept (f a) back b) : ReadsWithin kept p (d >>= f) (front ++ back) b :=
  (hd.bind hf.readsOr).congr (iff_of_eq (and_true p))

theorem ReadsWithin.bind_nil (hd : ReadsWithin kept p d front a)
    (hf : Reads kept (f a) [] b) : ReadsWithin kept p (d >>= f) front b := by
  have h := hd.bind_reads hf
  rwa [List.append_nil] at h

/-- A step that reads one thing each, within its own bound, reads all of them if all bounds are
    kept. -/
theorem within_repeated {step : Decoding σ α} {fits : α → Prop} {encode : α → List UInt8}
    {items : List α} (h : ∀ item ∈ items, ReadsWithin kept (fits item) step (encode item) item) :
    ReadsWithin kept (∀ item ∈ items, fits item) (repeated step items.length)
      (items.map encode).flatten items := by
  induction items with
  | nil => exact (reads_pure []).readsOr.congr (by simp)
  | cons item items ih =>
    have hi := h item (by simp)
    have hr := ih fun other ho => h other (by simp [ho])
    have hcons : ReadsWithin kept (∀ other ∈ items, fits other)
        (do let rest ← repeated step items.length; pure (item :: rest))
        (items.map encode).flatten (item :: items) := hr.bind_nil (reads_pure _)
    rw [List.map_cons, List.flatten_cons]
    exact (hi.bind hcons).congr (by simp)

end

end ApiCensus.Signature.Decoding
