/-
  What a step that ended well has read.

  * `LittleEndian.value`: the number that bytes hold; `encode_value` writes the bytes again.
  * `Cursor.Passes`: a cursor has gone over exactly these bytes.
  * `Cursor.byte_eq_ok`, `number_eq_ok`, `advance_eq_ok`, `take_eq_ok`, `seek_eq_ok`: what holds
    where a step ended well.
  * `Cursor.passes_of_byte`, `passes_of_number`, `passes_of_advance`: from the end of a step to
    the bytes it has gone over, the converse of what `Cursor.Reads` says.
-/
import ApiCensus.Proofs.Bytes.Reading

namespace ApiCensus

namespace LittleEndian

/-- The number that bytes hold, least significant byte first. -/
def value : List UInt8 → Nat
  | [] => 0
  | byte :: bytes => byte.toNat + 0x100 * value bytes

theorem value_lt_bound (bytes : List UInt8) : value bytes < bound bytes.length := by
  induction bytes with
  | nil => exact Nat.one_pos
  | cons byte bytes ih =>
    have hbyte := byte.toNat_lt
    simp only [value, bound, List.length_cons]
    omega

theorem encode_value (bytes : List UInt8) : encode bytes.length (value bytes) = bytes := by
  induction bytes with
  | nil => rfl
  | cons byte bytes ih =>
    have hbyte := byte.toNat_lt
    have hlow : UInt8.ofNat (byte.toNat + 0x100 * value bytes) = byte := by
      apply UInt8.toNat_inj.1
      rw [UInt8.toNat_ofNat']
      omega
    have hhigh : (byte.toNat + 0x100 * value bytes) / 0x100 = value bytes := by omega
    rw [value, List.length_cons, encode, hlow, hhigh, ih]

end LittleEndian

namespace Cursor

variable {cursor middle stop : Cursor} {front back : List UInt8}

/-- The cursor stands before the bytes, and `stop` behind them. -/
def Passes (cursor : Cursor) (bytes : List UInt8) (stop : Cursor) : Prop :=
  cursor.Sees (bytes ++ stop.rest) ∧ stop = cursor.forward bytes.length

theorem Passes.trans (hf : cursor.Passes front middle) (hb : middle.Passes back stop) :
    cursor.Passes (front ++ back) stop := by
  obtain ⟨hs, rfl⟩ := hf
  obtain ⟨hs', rfl⟩ := hb
  refine ⟨?_, by rw [forward_forward, List.length_append]⟩
  rw [List.append_assoc, ← hs'.rest_eq]
  exact hs

/-! ## Steps that ended well -/

theorem byte_eq_ok {b : UInt8} (h : byte cursor = (.ok b, stop)) :
    cursor.data[cursor.pos]? = some b ∧ stop = cursor.forward 1 := by
  rw [byte] at h
  split at h
  · next hfound =>
    obtain ⟨hb, hstop⟩ := Prod.mk.inj h
    exact ⟨hfound.trans (congrArg some (Except.ok.inj hb)), hstop.symm⟩
  · exact absurd (congrArg Prod.fst h) (by simp)

theorem number_eq_ok {width n : Nat} (h : number width cursor = (.ok n, stop)) :
    cursor.pos + width ≤ cursor.data.size ∧
      n = LittleEndian.valueAt cursor.data cursor.pos width ∧ stop = cursor.forward width := by
  rw [number, LittleEndian.read?] at h
  split at h
  · next hread =>
    split at hread
    · next hfits =>
      obtain ⟨hn, hstop⟩ := Prod.mk.inj h
      exact ⟨hfits, (Except.ok.inj hn).symm.trans (Option.some.inj hread).symm, hstop.symm⟩
    · cases hread
  · cases h

theorem advance_eq_ok {count : Nat} (h : advance count cursor = (.ok (), stop)) :
    cursor.pos + count ≤ cursor.data.size ∧ stop = cursor.forward count := by
  rw [advance] at h
  split at h
  · next hfits => exact ⟨hfits, (Prod.mk.inj h).2.symm⟩
  · cases h

theorem peek_eq_ok {next : UInt8} (h : peek cursor = (.ok next, stop)) :
    cursor.data[cursor.pos]? = some next ∧ stop = cursor := by
  rw [peek] at h
  split at h
  · next hfound =>
    obtain ⟨hnext, hstop⟩ := Prod.mk.inj h
    exact ⟨hfound.trans (congrArg some (Except.ok.inj hnext)), hstop.symm⟩
  · exact absurd (congrArg Prod.fst h) (by simp)

/-- A cursor that goes `count` bytes further on passes them. -/
theorem exists_passes {count : Nat} (h : cursor.pos + count ≤ cursor.data.size) :
    ∃ bytes, bytes.length = count ∧ cursor.Passes bytes (cursor.forward count) := by
  have hlength : (cursor.rest.take count).length = count := by
    rw [List.length_take, length_rest, remaining]
    omega
  refine ⟨cursor.rest.take count, hlength, ⟨by omega, ?_⟩, by rw [hlength]⟩
  show cursor.rest = cursor.rest.take count ++ cursor.data.data.toList.drop (cursor.pos + count)
  rw [← List.drop_drop, ← rest, List.take_append_drop]

theorem passes_of_advance {count : Nat} (h : advance count cursor = (.ok (), stop)) :
    ∃ bytes, bytes.length = count ∧ cursor.Passes bytes stop := by
  obtain ⟨hfits, rfl⟩ := advance_eq_ok h
  exact exists_passes hfits

theorem take_eq_ok {count : Nat} {data : ByteArray} (h : take count cursor = (.ok data, stop)) :
    cursor.pos + count ≤ cursor.data.size ∧
      data = cursor.data.extract cursor.pos (cursor.pos + count) ∧ stop = cursor.forward count := by
  rw [take] at h
  split at h
  · next hfits =>
    obtain ⟨hdata, hstop⟩ := Prod.mk.inj h
    exact ⟨hfits, (Except.ok.inj hdata).symm, hstop.symm⟩
  · exact absurd (congrArg Prod.fst h) (by simp)

theorem size_of_take {count : Nat} {data : ByteArray} (h : take count cursor = (.ok data, stop)) :
    data.size = count := by
  obtain ⟨hfits, rfl, -⟩ := take_eq_ok h
  rw [ByteArray.size_extract]
  omega

theorem seek_eq_ok {pos : Nat} (h : seek pos cursor = (.ok (), stop)) :
    pos ≤ cursor.data.size ∧ stop = { cursor with pos := pos } := by
  rw [seek] at h
  split at h
  · next hle => exact ⟨hle, (Prod.mk.inj h).2.symm⟩
  · exact absurd (congrArg Prod.fst h) (by simp)

/-- A cursor passes the byte that it stands before. -/
theorem passes_of_getElem? {b : UInt8} (h : cursor.data[cursor.pos]? = some b) :
    cursor.Passes [b] (cursor.forward 1) := by
  obtain ⟨hlt, -⟩ := getElem?_eq_some_iff.1 h
  have hone : cursor.pos + 1 ≤ cursor.data.size := hlt
  obtain ⟨bytes, hlength, hpasses⟩ := exists_passes hone
  obtain ⟨first, rfl⟩ := List.length_eq_one_iff.1 hlength
  have hfirst : cursor.data[cursor.pos]? = some first := Sees.getElem? hpasses.1
  obtain rfl : b = first := Option.some.inj (h.symm.trans hfirst)
  exact hpasses

theorem passes_of_byte {b : UInt8} (h : byte cursor = (.ok b, stop)) :
    cursor.Passes [b] stop := by
  obtain ⟨hb, rfl⟩ := byte_eq_ok h
  exact passes_of_getElem? hb

theorem passes_of_number {width n : Nat} (h : number width cursor = (.ok n, stop)) :
    ∃ bytes, bytes.length = width ∧ LittleEndian.value bytes = n ∧ cursor.Passes bytes stop := by
  obtain ⟨hfits, hn, rfl⟩ := number_eq_ok h
  obtain ⟨bytes, hlength, hpasses⟩ := exists_passes hfits
  have hs := hpasses.1
  rw [← LittleEndian.encode_value bytes, hlength] at hs
  have hlt : LittleEndian.value bytes < LittleEndian.bound width :=
    hlength ▸ LittleEndian.value_lt_bound bytes
  exact ⟨bytes, hlength, (hs.number hlt).1.symm.trans hn.symm, hpasses⟩

end Cursor

end ApiCensus
