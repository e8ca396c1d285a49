/-
  How long text gets when its ill-formed pieces are replaced.

  * `Piece.size_le_utf8Size`: a character that is shown for a piece has at least as many bytes.
  * `surplus`: the bytes that are added where ill-formed pieces are replaced; `utf8ByteSize_lossy`
    says that these are all.
  * `pieces_toUTF8`: text is cut into its characters, so it is shown as it is and nothing is added
    (`lossy_toUTF8`, `surplus_toUTF8`).
-/
import ApiCensus.Text.Utf8

namespace ApiCensus.Utf8

theorem toList_loop (data : ByteArray) (index : Nat) (front : List UInt8) :
    ByteArray.toList.loop data index front = front.reverse ++ data.data.toList.drop index := by
  induction index, front using ByteArray.toList.loop.induct data with
  | case1 index front hlt ih =>
    have hindex : index < data.data.toList.length := by simpa using hlt
    have hget : data.get! index = data.data.toList[index] := by
      rw [Array.getElem_toList]
      exact getElem!_pos data.data index (by simpa using hlt)
    rw [ByteArray.toList.loop, if_pos hlt, ih, List.drop_eq_getElem_cons hindex, hget]
    simp
  | case2 index front hge =>
    have hindex : data.data.toList.length ≤ index := by simpa using hge
    rw [ByteArray.toList.loop, if_neg hge, List.drop_eq_nil_of_le hindex, List.append_nil]

theorem toList_eq (data : ByteArray) : data.toList = data.data.toList := by
  rw [ByteArray.toList, toList_loop]
  simp

/-! ## Pieces -/

theorem utf8Size_ofNat {n : Nat} (h : n.isValidChar) :
    (Char.ofNat n).utf8Size =
      if n ≤ 0x7F then 1 else if n ≤ 0x7FF then 2 else if n ≤ 0xFFFF then 3 else 4 := by
  have hval : (Char.ofNat n).val.toNat = n := by
    rw [Char.ofNat, dif_pos h]
    rfl
  simp only [Char.utf8Size, UInt32.le_iff_toNat_le, hval]
  rfl

theorem isContinuation_iff {b : UInt8} :
    isContinuation b = true ↔ 0x80 ≤ b.toNat ∧ b.toNat ≤ 0xBF := by
  simp [isContinuation, UInt8.le_iff_toNat_le]

theorem followsThree_iff {a b : UInt8} : followsThree a b = true ↔
    (0x80 ≤ b.toNat ∧ b.toNat ≤ 0xBF) ∧ (a.toNat = 0xE0 → 0xA0 ≤ b.toNat) ∧
      (a.toNat = 0xED → b.toNat ≤ 0x9F) := by
  simp only [followsThree, Bool.and_eq_true, Bool.or_eq_true, bne_iff_ne, ne_eq,
    isContinuation_iff, decide_eq_true_eq, UInt8.le_iff_toNat_le, ← UInt8.toNat_inj,
    Decidable.imp_iff_not_or, and_assoc]
  rfl

theorem followsFour_iff {a b : UInt8} : followsFour a b = true ↔
    (0x80 ≤ b.toNat ∧ b.toNat ≤ 0xBF) ∧ (a.toNat = 0xF0 → 0x90 ≤ b.toNat) ∧
      (a.toNat = 0xF4 → b.toNat ≤ 0x8F) := by
  simp only [followsFour, Bool.and_eq_true, Bool.or_eq_true, bne_iff_ne, ne_eq,
    isContinuation_iff, decide_eq_true_eq, UInt8.le_iff_toNat_le, ← UInt8.toNat_inj,
    Decidable.imp_iff_not_or, and_assoc]
  rfl

theorem payload_eq (b : UInt8) : payload b = b.toNat % 0x40 := rfl

theorem utf8Size_two {a b : UInt8} (ha : 0xC2 ≤ a.toNat ∧ a.toNat ≤ 0xDF) :
    (Char.ofNat (a.toNat % 0x20 * 0x40 + payload b)).utf8Size = 2 := by
  have hb := payload_eq b
  rw [utf8Size_ofNat (.inl (by omega)), if_neg (by omega), if_pos (by omega)]

theorem utf8Size_three {a b c : UInt8} (ha : 0xE0 ≤ a.toNat ∧ a.toNat ≤ 0xEF)
    (hfollows : followsThree a b = true) :
    (Char.ofNat ((a.toNat % 0x10 * 0x40 + payload b) * 0x40 + payload c)).utf8Size = 3 := by
  obtain ⟨hrange, hshort, hsurrogate⟩ := followsThree_iff.1 hfollows
  have hb := payload_eq b
  have hc := payload_eq c
  have hvalid : ((a.toNat % 0x10 * 0x40 + payload b) * 0x40 + payload c).isValidChar := by
    rw [Nat.isValidChar]
    omega
  rw [utf8Size_ofNat hvalid, if_neg (by omega), if_neg (by omega), if_pos (by omega)]

theorem utf8Size_four {a b c d : UInt8} (ha : 0xF0 ≤ a.toNat ∧ a.toNat ≤ 0xF4)
    (hfollows : followsFour a b = true) :
    (Char.ofNat (((a.toNat % 8 * 0x40 + payload b) * 0x40 + payload c) * 0x40
      + payload d)).utf8Size = 4 := by
  obtain ⟨hrange, hshort, hlast⟩ := followsFour_iff.1 hfollows
  have hb := payload_eq b
  have hc := payload_eq c
  have hd := payload_eq d
  have hvalid : (((a.toNat % 8 * 0x40 + payload b) * 0x40 + payload c) * 0x40
      + payload d).isValidChar := by
    rw [Nat.isValidChar]
    omega
  rw [utf8Size_ofNat hvalid, if_neg (by omega), if_neg (by omega), if_neg (by omega)]

theorem between_iff {low high b : UInt8} :
    (low ≤ b && b ≤ high) = true ↔ low.toNat ≤ b.toNat ∧ b.toNat ≤ high.toNat := by
  simp [UInt8.le_iff_toNat_le]

namespace Piece

theorem size_pos (first : UInt8) (rest : List UInt8) : 0 < (ofBytes first rest).size := by
  fun_cases ofBytes first rest <;> simp [size]

theorem size_le_length (first : UInt8) (rest : List UInt8) :
    (ofBytes first rest).size ≤ rest.length + 1 := by
  fun_cases ofBytes first rest <;> simp [size]

theorem size_le_utf8Size (first : UInt8) (rest : List UInt8) :
    (ofBytes first rest).size ≤ (ofBytes first rest).shown.utf8Size := by
  fun_cases ofBytes first rest
  case case1 => exact Char.utf8Size_pos _
  case case3 htwo _ _ _ => exact Nat.le_of_eq (utf8Size_two (between_iff.1 htwo)).symm
  case case8 hthree _ hfollows _ _ _ =>
    rw [Bool.not_eq_true', Bool.not_eq_false] at hfollows
    exact Nat.le_of_eq (utf8Size_three (between_iff.1 hthree) hfollows).symm
  case case15 hfour _ hfollows _ _ _ _ _ =>
    rw [Bool.not_eq_true', Bool.not_eq_false] at hfollows
    exact Nat.le_of_eq (utf8Size_four (between_iff.1 hfour) hfollows).symm
  -- An ill-formed piece has at most three bytes, as many as what is shown for it.
  all_goals decide

/-! ## Encoded characters -/

theorem not_lt_of_le {a : UInt8} (h : 0x80 ≤ a.toNat) : ¬ a < 0x80 := by
  rw [UInt8.lt_iff_toNat_lt]
  exact Nat.not_lt.2 h

theorem not_between {low high a : UInt8} (h : high.toNat < a.toNat) :
    ¬ (low ≤ a && a ≤ high) = true :=
  fun ha => Nat.not_le.2 h (between_iff.1 ha).2

section
variable {ch : Char} {a b c d : UInt8} (back : List UInt8)

theorem ofBytes_one (hch : ch.toNat ≤ 0x7F) (ha : a.toNat = ch.toNat) :
    ofBytes a back = .scalar ch 1 := by
  have hlt : a < 0x80 := by
    rw [UInt8.lt_iff_toNat_lt, ha]
    exact Nat.lt_succ_of_le hch
  rw [ofBytes.eq_def, if_pos hlt, ha, Char.ofNat_toNat]

theorem ofBytes_two (hch : 0x7F < ch.toNat ∧ ch.toNat ≤ 0x7FF)
    (ha : a.toNat = ch.toNat / 64 % 32 + 192) (hb : b.toNat = ch.toNat % 64 + 128) :
    ofBytes a (b :: back) = .scalar ch 2 := by
  have hlead : (0xC2 ≤ a && a ≤ 0xDF) = true := between_iff.2 (by
    show 0xC2 ≤ a.toNat ∧ a.toNat ≤ 0xDF
    omega)
  have hnext : isContinuation b = true := isContinuation_iff.2 (by omega)
  have hvalue : a.toNat % 0x20 * 0x40 + payload b = ch.toNat := by
    rw [payload_eq]
    omega
  rw [ofBytes.eq_def, if_neg (not_lt_of_le (by omega)), if_pos hlead]
  simp only [hnext, if_true, hvalue, Char.ofNat_toNat]

theorem ofBytes_three (hch : 0x7FF < ch.toNat ∧ ch.toNat ≤ 0xFFFF)
    (ha : a.toNat = ch.toNat / 4096 % 16 + 224) (hb : b.toNat = ch.toNat / 64 % 64 + 128)
    (hc : c.toNat = ch.toNat % 64 + 128) : ofBytes a (b :: c :: back) = .scalar ch 3 := by
  have hvalid : ch.toNat < 0xD800 ∨ 0xDFFF < ch.toNat ∧ ch.toNat < 0x110000 := ch.valid
  have htwo : ¬ (0xC2 ≤ a && a ≤ 0xDF) = true := not_between (by
    show 0xDF < a.toNat
    omega)
  have hlead : (0xE0 ≤ a && a ≤ 0xEF) = true := between_iff.2 (by
    show 0xE0 ≤ a.toNat ∧ a.toNat ≤ 0xEF
    omega)
  have hfollows : followsThree a b = true := followsThree_iff.2 (by omega)
  have hlast : isContinuation c = true := isContinuation_iff.2 (by omega)
  have hvalue : (a.toNat % 0x10 * 0x40 + payload b) * 0x40 + payload c = ch.toNat := by
    rw [payload_eq, payload_eq]
    omega
  rw [ofBytes.eq_def, if_neg (not_lt_of_le (by omega)), if_neg htwo, if_pos hlead]
  simp only [hfollows, hlast, Bool.not_true, Bool.false_eq_true, if_false, if_true, hvalue,
    Char.ofNat_toNat]

theorem ofBytes_four (hch : 0xFFFF < ch.toNat)
    (ha : a.toNat = ch.toNat / 262144 % 8 + 240) (hb : b.toNat = ch.toNat / 4096 % 64 + 128)
    (hc : c.toNat = ch.toNat / 64 % 64 + 128) (hd : d.toNat = ch.toNat % 64 + 128) :
    ofBytes a (b :: c :: d :: back) = .scalar ch 4 := by
  have hvalid : ch.toNat < 0xD800 ∨ 0xDFFF < ch.toNat ∧ ch.toNat < 0x110000 := ch.valid
  have htwo : ¬ (0xC2 ≤ a && a ≤ 0xDF) = true := not_between (by
    show 0xDF < a.toNat
    omega)
  have hthree : ¬ (0xE0 ≤ a && a ≤ 0xEF) = true := not_between (by
    show 0xEF < a.toNat
    omega)
  have hlead : (0xF0 ≤ a && a ≤ 0xF4) = true := between_iff.2 (by
    show 0xF0 ≤ a.toNat ∧ a.toNat ≤ 0xF4
    omega)
  have hfollows : followsFour a b = true := followsFour_iff.2 (by omega)
  have hthird : isContinuation c = true := isContinuation_iff.2 (by omega)
  have hlast : isContinuation d = true := isContinuation_iff.2 (by omega)
  have hvalue : ((a.toNat % 8 * 0x40 + payload b) * 0x40 + payload c) * 0x40 + payload d =
      ch.toNat := by
    rw [payload_eq, payload_eq, payload_eq]
    omega
  rw [ofBytes.eq_def, if_neg (not_lt_of_le (by omega)), if_neg htwo, if_neg hthree, if_pos hlead]
  simp only [hfollows, hthird, hlast, Bool.not_true, Bool.false_eq_true, if_false, if_true, hvalue,
    Char.ofNat_toNat]

end

end Piece

theorem utf8Size_eq (ch : Char) : ch.utf8Size =
    if ch.toNat ≤ 0x7F then 1 else if ch.toNat ≤ 0x7FF then 2 else
      if ch.toNat ≤ 0xFFFF then 3 else 4 := by
  have h := utf8Size_ofNat ch.valid
  rwa [← Char.toNat, Char.ofNat_toNat] at h

/-- The bytes of a character are cut off as one piece. -/
theorem pieces_encodeChar (ch : Char) (back : List UInt8) :
    pieces (String.utf8EncodeChar ch ++ back) = .scalar ch ch.utf8Size :: pieces back := by
  have hsize := utf8Size_eq ch
  have hvalid : ch.toNat < 0xD800 ∨ 0xDFFF < ch.toNat ∧ ch.toNat < 0x110000 := ch.valid
  have hbyte : ∀ n < 0x100, (UInt8.ofNat n).toNat = n := fun n hn => by
    rw [UInt8.toNat_ofNat']
    omega
  rw [String.utf8EncodeChar, ← Char.toNat]
  by_cases hone : ch.toNat ≤ 0x7F
  · rw [if_pos hone] at hsize ⊢
    rw [List.singleton_append, pieces, Piece.ofBytes_one _ hone (hbyte _ (by omega)), hsize]
    rfl
  rw [if_neg hone] at hsize ⊢
  by_cases htwo : ch.toNat ≤ 0x7FF
  · rw [if_pos htwo] at hsize ⊢
    rw [List.cons_append, List.singleton_append, pieces, Piece.ofBytes_two _ ⟨by omega, htwo⟩
      (hbyte _ (by omega)) (hbyte _ (by omega)), hsize]
    rfl
  rw [if_neg htwo] at hsize ⊢
  by_cases hthree : ch.toNat ≤ 0xFFFF
  · rw [if_pos hthree] at hsize ⊢
    rw [List.cons_append, List.cons_append, List.singleton_append, pieces,
      Piece.ofBytes_three _ ⟨by omega, hthree⟩ (hbyte _ (by omega)) (hbyte _ (by omega))
        (hbyte _ (by omega)), hsize]
    rfl
  rw [if_neg hthree] at hsize ⊢
  rw [List.cons_append, List.cons_append, List.cons_append, List.singleton_append, pieces,
    Piece.ofBytes_four _ (by omega) (hbyte _ (by omega)) (hbyte _ (by omega)) (hbyte _ (by omega))
      (hbyte _ (by omega)), hsize]
  rfl

/-! ## Text -/

/-- The bytes of a text that stands for the pieces of a byte string, beyond those of the byte
    string: a replacement character has three bytes. -/
def surplus (bytes : List UInt8) : Nat :=
  (pieces bytes).foldr (fun piece rest => piece.shown.utf8Size - piece.size + rest) 0

theorem utf8ByteSize_ofList (chars : List Char) :
    (String.ofList chars).utf8ByteSize = chars.foldr (fun ch rest => ch.utf8Size + rest) 0 := by
  show (String.ofList chars).toByteArray.size = _
  rw [String.toByteArray_ofList]
  induction chars with
  | nil => rfl
  | cons ch chars ih =>
    rw [List.utf8Encode_cons, ByteArray.size_append, ih, List.utf8Encode_singleton,
      List.size_toByteArray, String.length_utf8EncodeChar, List.foldr_cons]

theorem foldr_shown (bytes : List UInt8) :
    (pieces bytes).foldr (fun piece rest => piece.shown.utf8Size + rest) 0 =
      bytes.length + surplus bytes := by
  induction hn : bytes.length using Nat.strongRecOn generalizing bytes with
  | ind n ih =>
    cases bytes with
    | nil => rw [surplus, pieces, ← hn]; rfl
    | cons first rest =>
      have hpos := Piece.size_pos first rest
      have hlength := Piece.size_le_length first rest
      have hshown := Piece.size_le_utf8Size first rest
      rw [List.length_cons] at hn
      have hrest := ih _ (by rw [List.length_drop]; omega)
        (rest.drop ((Piece.ofBytes first rest).size - 1)) rfl
      rw [List.length_drop] at hrest
      rw [surplus, pieces, List.foldr_cons, List.foldr_cons, hrest, surplus]
      omega

theorem utf8ByteSize_lossy (bytes : List UInt8) :
    (lossy bytes.toByteArray).utf8ByteSize = bytes.length + surplus bytes := by
  rw [lossy, utf8ByteSize_ofList, List.foldr_map, toList_eq, List.data_toByteArray,
    List.toList_toArray]
  exact foldr_shown bytes

theorem pieces_flatMap (chars : List Char) :
    pieces (chars.flatMap String.utf8EncodeChar) = chars.map fun ch => .scalar ch ch.utf8Size := by
  induction chars with
  | nil => rw [List.flatMap_nil, pieces.eq_def]; rfl
  | cons ch chars ih => rw [List.flatMap_cons, pieces_encodeChar, ih, List.map_cons]

theorem toList_toUTF8 (text : String) :
    text.toUTF8.data.toList = text.toList.flatMap String.utf8EncodeChar := by
  have htext : text.toUTF8 = text.toList.utf8Encode := by
    show text.toByteArray = _
    rw [← String.toByteArray_ofList, String.ofList_toList]
  rw [htext, List.utf8Encode, List.data_toByteArray, List.toList_toArray]

theorem pieces_toUTF8 (text : String) :
    pieces text.toUTF8.data.toList = text.toList.map fun ch => .scalar ch ch.utf8Size := by
  rw [toList_toUTF8, pieces_flatMap]

/-- Text is shown as it is. -/
theorem lossy_toUTF8 (text : String) : lossy text.toUTF8 = text := by
  rw [lossy, toList_eq, pieces_toUTF8, List.map_map]
  exact (congrArg String.ofList (List.map_id _)).trans String.ofList_toList

theorem surplus_toUTF8 (text : String) : surplus text.toUTF8.data.toList = 0 := by
  rw [surplus, pieces_toUTF8]
  induction text.toList with
  | nil => rfl
  | cons ch chars ih =>
    rw [List.map_cons, List.foldr_cons, ih]
    exact Nat.sub_self ch.utf8Size

end ApiCensus.Utf8
