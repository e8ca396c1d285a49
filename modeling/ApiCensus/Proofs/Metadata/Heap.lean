/-
  Values of a heap are found at the indexes that were given for them.

  * `Heap.Holds`: a value is written at an index of a heap. `blob_of_holds` and `text_of_holds`
    read it there; what is written behind the heap does not matter.
  * `HeapDraft.Sound`: every index that a heap remembers holds its value.
  * `HeapDraft.add_spec`: a value is added without harm to the others, and it is added once.
-/
import ApiCensus.Draft.Heap
import ApiCensus.Metadata.Heap
import ApiCensus.Proofs.Bytes.Compressed

namespace ApiCensus

open Attempt

/-! ## Values in a heap -/

namespace Heap

variable {α : Type} [HeapValue α] {bytes : List UInt8} {index : Nat} {value : α}

/-- A value is written at an index: the empty one at index 0, any other where its bytes are. -/
def Holds (bytes : List UInt8) (index : Nat) (value : α) : Prop :=
  if HeapValue.isEmpty value then index = 0
  else ∃ front back, bytes = front ++ (HeapValue.encode value ++ back) ∧
    index = front.length ∧ index ≠ 0

theorem Holds.append (h : Holds bytes index value) (more : List UInt8) :
    Holds (bytes ++ more) index value := by
  unfold Holds at h ⊢
  split
  · rwa [if_pos ‹_›] at h
  · rw [if_neg ‹_›] at h
    obtain ⟨front, back, rfl, hindex⟩ := h
    exact ⟨front, back ++ more, by simp only [List.append_assoc], hindex⟩

theorem Holds.of_prefix (h : Holds bytes index value) {grown : List UInt8}
    (hgrown : bytes <+: grown) : Holds grown index value := by
  obtain ⟨more, rfl⟩ := hgrown
  exact h.append more

/-- An index lies inside the heap. -/
theorem Holds.lt_length (h : Holds bytes index value)
    (hne : HeapValue.encode value ≠ []) (hbytes : bytes ≠ []) : index < bytes.length := by
  unfold Holds at h
  split at h
  · rw [h]
    exact List.length_pos_iff.2 hbytes
  · obtain ⟨front, back, rfl, rfl, -⟩ := h
    have hlength := List.length_pos_iff.2 hne
    simp only [List.length_append]
    omega

/-- **A byte string is read from its index.** -/
theorem blob_of_holds {data : ByteArray} (h : Holds bytes index data)
    (hsize : data.size < Compressed.bound) : blob bytes.toByteArray index = .ok data := by
  unfold Holds at h
  split at h
  · have hdata : data = .empty := by
      apply ByteArray.ext
      apply Array.eq_empty_of_size_eq_zero
      simpa [HeapValue.isEmpty, ByteArray.isEmpty] using ‹HeapValue.isEmpty data = true›
    rw [h, hdata]
    rfl
  · obtain ⟨front, back, rfl, rfl, hindex⟩ := h
    have hs := Cursor.sees_behind front (HeapValue.encode data ++ back)
    have htake := Cursor.reads_take data.data.toList
    have hdata : data.data.toList.toByteArray = data := ByteArray.ext (by simp)
    rw [Array.length_toList, ByteArray.size_data, hdata] at htake
    have hresult := ((Compressed.reads_number hsize).bind htake) _ back hs
    rw [blob, if_neg hindex, if_neg (Nat.not_lt.2 hs.inside)]
    exact congrArg Prod.fst hresult

theorem terminator?_of_sees {cursor : Cursor} {front back : List UInt8} (hzero : 0 ∉ front)
    (hs : cursor.Sees (front ++ 0 :: back)) :
    terminator? cursor.data cursor.pos = some (cursor.pos + front.length) := by
  have hbyte : ∀ {place : Cursor} {byte : UInt8} {rest : List UInt8},
      place.Sees (byte :: rest) →
        ∃ h : place.pos < place.data.size, place.data[place.pos] = byte := fun hs =>
    getElem?_eq_some_iff.1 hs.getElem?
  induction front generalizing cursor with
  | nil =>
    obtain ⟨hlt, hzero⟩ := hbyte hs
    rw [terminator?, dif_pos hlt, if_pos hzero]
    rfl
  | cons byte front ih =>
    obtain ⟨hne, hfront⟩ := not_or.1 (mt List.mem_cons.2 hzero)
    obtain ⟨hlt, rfl⟩ := hbyte hs
    have hsplit : cursor.Sees ([_] ++ _) := hs
    have hrest := ih hfront hsplit.forward
    simp only [Cursor.forward, List.length_singleton] at hrest
    rw [terminator?, dif_pos hlt, if_neg (Ne.symm hne), hrest, List.length_cons, Nat.add_assoc,
      Nat.add_comm 1]

/-- **A text without zero bytes is read from its index.** -/
theorem text_of_holds {value : String} (h : Holds bytes index value)
    (hzero : 0 ∉ value.toUTF8.data.toList) : text bytes.toByteArray index = .ok value := by
  unfold Holds at h
  split at h
  · have hvalue : value = "" := String.isEmpty_iff.1 ‹_›
    rw [h, hvalue]
    rfl
  · obtain ⟨front, back, rfl, rfl, hindex⟩ := h
    have hs := Cursor.sees_behind front (HeapValue.encode value ++ back)
    have hstop := hs.inside
    simp only [HeapValue.encode, List.append_assoc] at hs hstop ⊢
    have hend := terminator?_of_sees hzero hs
    have hextract := hs.extract
    simp only at hend hextract
    have hbytes : value.toUTF8.data.toList.toByteArray = value.toUTF8 := ByteArray.ext (by simp)
    rw [text, if_neg hindex, if_neg (Nat.not_lt.2 hstop), hend]
    simp only [hextract, hbytes, Utf8.decode_toUTF8]

end Heap

/-! ## Heaps that are being written -/

instance lawfulBEq_byteArray : LawfulBEq ByteArray where
  eq_of_beq {a b} h := by
    have hdata : (a.data == b.data) = true := h
    exact ByteArray.ext (eq_of_beq hdata)
  rfl {a} := by
    show (a.data == a.data) = true
    exact beq_self_eq_true a.data

namespace HeapDraft

variable {α : Type} [BEq α] [Hashable α]

theorem bytes_push (heap : HeapDraft α) (entry : List UInt8) (size : Nat)
    (indexes : Std.HashMap α Nat) :
    bytes { size, entries := heap.entries.push entry, indexes } = heap.bytes ++ entry := by
  simp [bytes]

variable [HeapValue α] {heap : HeapDraft α}

/-- The size is that of the bytes, and every index that is remembered holds its value. -/
structure Sound (heap : HeapDraft α) : Prop where
  size_eq : heap.size = heap.bytes.length
  holds : ∀ (value : α) (index : Nat), heap.indexes[value]? = some index →
    Heap.Holds heap.bytes index value

theorem sound_start : Sound ({} : HeapDraft α) :=
  ⟨rfl, fun value index h => by simp at h⟩

/-- A heap to which nothing is added. -/
theorem Sound.of_eq {next : HeapDraft α} (h : heap.Sound) (hsame : next = heap) :
    next.Sound ∧ heap.bytes <+: next.bytes := by
  subst hsame
  exact ⟨h, List.prefix_refl _⟩

/-- The value is written, the heap only grows, and the value has the same index from then on. -/
structure Added (heap : HeapDraft α) (value : α) (index : Nat) (next : HeapDraft α) : Prop where
  sound : next.Sound
  holds : Heap.Holds next.bytes index value
  grows : heap.bytes <+: next.bytes
  remembers : ∀ (other : α) (found : Nat), heap.indexes[other]? = some found →
    next.indexes[other]? = some found
  again : next.add value = (index, next)

/-- The heap with a new value at its end. -/
def pushed (heap : HeapDraft α) (value : α) : HeapDraft α where
  size := heap.size + (HeapValue.encode value).length
  entries := heap.entries.push (HeapValue.encode value)
  indexes := heap.indexes.insert value heap.size

theorem Sound.holds_pushed (h : heap.Sound) {value : α} (hvalue : ¬ HeapValue.isEmpty value) :
    Heap.Holds (heap.pushed value).bytes heap.size value := by
  rw [Heap.Holds, if_neg hvalue, pushed, bytes_push]
  refine ⟨heap.bytes, [], by simp, h.size_eq, ?_⟩
  rw [h.size_eq, bytes]
  simp

theorem add_of_empty {value : α} (hempty : HeapValue.isEmpty value = true) :
    heap.add value = (0, heap) :=
  if_pos hempty

/-- A value that is remembered is not written again. -/
theorem add_of_found {value : α} {index : Nat} (hempty : HeapValue.isEmpty value = false)
    (hindex : heap.indexes[value]? = some index) : heap.add value = (index, heap) := by
  rw [add, hempty, hindex]
  rfl

/-- Any other value is written at the end. -/
theorem add_of_new {value : α} (hempty : HeapValue.isEmpty value = false)
    (hindex : heap.indexes[value]? = none) : heap.add value = (heap.size, heap.pushed value) := by
  rw [add, hempty, hindex]
  rfl

variable [LawfulBEq α]

theorem getElem?_pushed (heap : HeapDraft α) (value other : α) :
    (heap.pushed value).indexes[other]? =
      if value == other then some heap.size else heap.indexes[other]? :=
  Std.HashMap.getElem?_insert

theorem Sound.push (h : heap.Sound) {value : α} (hvalue : ¬ HeapValue.isEmpty value) :
    (heap.pushed value).Sound := by
  constructor
  · rw [pushed, bytes_push, List.length_append, ← h.size_eq]
  · intro other index hother
    rw [getElem?_pushed] at hother
    split at hother
    · rename_i hsame
      rw [← Option.some.inj hother, ← eq_of_beq hsame]
      exact h.holds_pushed hvalue
    · rw [pushed, bytes_push]
      exact (h.holds other index hother).append _

/-- **A value is found at the index that it is given, and so are all values that were added
    before; when it is added again, it has the same index and nothing is written.** -/
theorem add_spec (h : heap.Sound) (value : α) :
    heap.Added value (heap.add value).1 (heap.add value).2 := by
  by_cases hempty : HeapValue.isEmpty value = true
  · have hadd : heap.add value = (0, heap) := add_of_empty hempty
    rw [hadd]
    refine ⟨h, ?_, List.prefix_refl _, fun _ _ hfound => hfound, hadd⟩
    rw [Heap.Holds, if_pos hempty]
  · cases hindex : heap.indexes[value]? with
    | some index =>
      have hadd := add_of_found (eq_false_of_ne_true hempty) hindex
      rw [hadd]
      exact ⟨h, h.holds value index hindex, List.prefix_refl _, fun _ _ hfound => hfound, hadd⟩
    | none =>
      have hadd := add_of_new (eq_false_of_ne_true hempty) hindex
      rw [hadd]
      refine ⟨h.push hempty, h.holds_pushed hempty, ?_, ?_, ?_⟩
      · rw [pushed, bytes_push]
        exact List.prefix_append _ _
      · intro other found hfound
        have hne : value ≠ other := by
          rintro rfl
          rw [hindex] at hfound
          cases hfound
        rw [getElem?_pushed, if_neg (by simpa using hne)]
        exact hfound
      · refine add_of_found (eq_false_of_ne_true hempty) ?_
        rw [getElem?_pushed, if_pos (beq_self_eq_true value)]

end HeapDraft

end ApiCensus
