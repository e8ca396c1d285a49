/-
  Identifiers are found at their index, as long as positions fit a word.

  * `Heap.guidAt?`: the identifier at an index, if the heap holds that many.
  * `Heap.guid_of_lt`: below index 2 ^ 60 that identifier is found, and else there is a fault.
  * `Heap.guid_eq_missing_iff`: from index 2 ^ 60 on a position is too large for its word, and the
    program stops.
  * `Heap.guid_of_index`: both; `Heap.guid_beyond` is an index that should end with a fault.
-/
import ApiCensus.Metadata.Heap
import ApiCensus.Proofs.Checked

namespace ApiCensus.Heap

variable {heap : ByteArray} {index : Nat}

/-- The identifier at an index, counted from 1, if the heap holds that many. -/
def guidAt? (heap : ByteArray) (index : Nat) : Option Guid :=
  if 1 ≤ index ∧ 16 * index ≤ heap.size then
    some ⟨heap.extract (16 * (index - 1)) (16 * index)⟩
  else
    none

theorem guidAt?_of_le (hheap : heap.size < 2 ^ 64) (h : 2 ^ 60 ≤ index) :
    guidAt? heap index = none :=
  if_neg fun hfits => by omega

/-- Below index 2 ^ 60 both positions are words. -/
theorem guid_of_lt (h : index < 2 ^ 60) : guid heap index =
    match guidAt? heap index with
    | some found => pure found
    | none => throw (if index = 0 then .malformed .nullGuid else .outOfBounds) := by
  by_cases hindex : index = 0
  · subst hindex
    rfl
  · have hpos : 1 ≤ index := Nat.pos_of_ne_zero hindex
    have hbound : Checked.wordBound = 2 ^ 64 := rfl
    have hstart : (index - 1) * 16 < Checked.wordBound := by omega
    have hstop : (index - 1) * 16 + 16 < Checked.wordBound := by omega
    have hfirst : (index - 1) * 16 = 16 * (index - 1) := Nat.mul_comm _ _
    have hlast : (index - 1) * 16 + 16 = 16 * index := by omega
    rw [guid, if_neg hindex, Checked.word, if_pos hstart, pure_bind, Checked.word, if_pos hstop,
      pure_bind, hlast, hfirst, guidAt?]
    by_cases hfits : 16 * index ≤ heap.size
    · rw [if_pos hfits, if_pos ⟨hpos, hfits⟩]
    · rw [if_neg hfits, if_neg fun hall => hfits hall.2]
      simp only [if_neg hindex]

/-- From index 2 ^ 60 on the position behind the identifier is no word, and soon its own one is
    not either. -/
theorem guid_of_le (h : 2 ^ 60 ≤ index) : guid heap index = .missing := by
  have hindex : index ≠ 0 := by omega
  have hbound : Checked.wordBound = 2 ^ 64 := rfl
  have hstop : ¬ (index - 1) * 16 + 16 < Checked.wordBound := by omega
  rw [guid, if_neg hindex, Checked.word]
  split
  · rw [pure_bind, Checked.word, if_neg hstop]
    rfl
  · rfl

theorem guid_eq_missing_iff : guid heap index = .missing ↔ 2 ^ 60 ≤ index := by
  refine ⟨fun hmissing => Nat.le_of_not_lt fun hlt => ?_, guid_of_le⟩
  rw [guid_of_lt hlt] at hmissing
  cases hfound : guidAt? heap index <;> rw [hfound] at hmissing <;> cases hmissing

/-- **The program stops just from index 2 ^ 60 on, where a position is too large for a word of 64
    bits, although no heap holds as many identifiers. Below, the identifier of the index is found
    if the heap holds that many, and any other index ends with a fault.** -/
theorem guid_of_index (heap : ByteArray) (hheap : heap.size < 2 ^ 64) (index : Nat) :
    (guid heap index = .missing ↔ 2 ^ 60 ≤ index) ∧
    (2 ^ 60 ≤ index → guidAt? heap index = none) ∧
    (index < 2 ^ 60 → guid heap index =
      match guidAt? heap index with
      | some found => pure found
      | none => throw (if index = 0 then .malformed .nullGuid else .outOfBounds)) :=
  ⟨guid_eq_missing_iff, guidAt?_of_le hheap, guid_of_lt⟩

/-- A heap of one identifier. -/
def oneGuid : ByteArray :=
  ⟨#[0x78, 0x56, 0x34, 0x12, 0x34, 0x12, 0x78, 0x56,
    0x12, 0x34, 0x56, 0x78, 0x9A, 0xBC, 0xDE, 0xF0]⟩

theorem guid_of_index_one : guid oneGuid 1 = pure ⟨oneGuid⟩ ∧
    guid oneGuid 2 = throw .outOfBounds ∧ guid oneGuid 0 = throw (.malformed .nullGuid) ∧
    guid oneGuid (2 ^ 60) = .missing := by
  have hheap : oneGuid.size < 2 ^ 64 := by decide
  obtain ⟨-, -, hfirst⟩ := guid_of_index oneGuid hheap 1
  obtain ⟨-, -, hsecond⟩ := guid_of_index oneGuid hheap 2
  obtain ⟨-, -, hnull⟩ := guid_of_index oneGuid hheap 0
  obtain ⟨hmissing, -, -⟩ := guid_of_index oneGuid hheap (2 ^ 60)
  exact ⟨hfirst (by decide), hsecond (by decide), hnull (by decide), hmissing.2 (by decide)⟩

/-- The heap holds one identifier. An index far beyond does not end with a fault: the program
    stops. -/
theorem guid_beyond : guidAt? oneGuid (2 ^ 60 + 1) = none ∧
    guid oneGuid (2 ^ 60 + 1) = .missing ∧
    ¬ ∃ fault, guid oneGuid (2 ^ 60 + 1) = throw fault := by
  have hmissing : guid oneGuid (2 ^ 60 + 1) = .missing := guid_of_le (by decide)
  refine ⟨rfl, hmissing, fun ⟨fault, hfault⟩ => ?_⟩
  rw [hmissing] at hfault
  cases hfault

end ApiCensus.Heap
