/-
  What a compressed token says.

  * `Compressed.lt_bound_of_number`: the number in front has 29 bits at most.
  * `Token.tableNumber_join`, `Token.row_join`: a table byte and a row number joined by their
    bits; what the row number has beyond 24 bits ends up in the table byte.
  * `Compressed.token_parts`: the low two bits of the number select the table and the others are
    the row, as long as the row fits a token; a row that does not fit gives the token of another
    row, `Compressed.token_joined` even one of another table.
-/
import ApiCensus.Proofs.Bytes.Compressed
import ApiCensus.Proofs.Bytes.Passing

namespace ApiCensus

open Attempt

/-! ## The number in front -/

namespace Compressed

theorem exists_three {data : ByteArray} (h : data.size = 3) :
    ∃ a b c, data = [a, b, c].toByteArray := by
  have hlength : data.data.toList.length = 3 := by simpa using h
  obtain ⟨a, b, c, hbytes⟩ : ∃ a b c, data.data.toList = [a, b, c] := by
    match data.data.toList, hlength with
    | [a, b, c], _ => exact ⟨a, b, c, rfl⟩
  refine ⟨a, b, c, ByteArray.ext ?_⟩
  rw [← hbytes]
  simp

theorem bigEndian_lt {data : ByteArray} (h : data.size = 3) : bigEndian data < 0x1000000 := by
  obtain ⟨a, b, c, rfl⟩ := exists_three h
  have ha := a.toNat_lt
  have hb := b.toNat_lt
  have hc := c.toNat_lt
  rw [bigEndian_three]
  omega

/-- A compressed number has at most 29 bits. -/
theorem lt_bound_of_number {cursor stop : Cursor} {n : Nat}
    (h : number cursor = (.ok n, stop)) : n < bound := by
  obtain ⟨lead, middle, -, h⟩ := bind_eq_ok h
  have hlead := lead.toNat_lt
  simp only [bound]
  split at h
  · obtain rfl := Except.ok.inj (congrArg Prod.fst h)
    omega
  split at h
  · obtain ⟨second, _, -, h⟩ := bind_eq_ok h
    have hsecond := second.toNat_lt
    obtain rfl := Except.ok.inj (congrArg Prod.fst h)
    omega
  split at h
  · obtain ⟨low, _, hlow, h⟩ := bind_eq_ok h
    have hbytes := bigEndian_lt (Cursor.size_of_take hlow)
    obtain rfl := Except.ok.inj (congrArg Prod.fst h)
    omega
  · exact absurd (congrArg Prod.fst h) (by simp)

end Compressed

/-! ## The table byte and the row -/

namespace Token

/-- The token of a table byte and a row number whose bits are joined. -/
def join (table : TableId) (row : Nat) : Token :=
  ofNat (table.number * rowBound ||| row)

section
variable (table : TableId) {row : Nat}

theorem toNat_join (h : row < 0x100000000) :
    (join table row).value.toNat = table.number * rowBound ||| row := by
  have htable : table.number * rowBound < 2 ^ 32 := by
    have ht := table.number_lt
    simp only [rowBound, TableId.count] at ht ⊢
    omega
  rw [join, ofNat, UInt32.toNat_ofNat']
  exact Nat.mod_eq_of_lt (Nat.or_lt_two_pow htable h)

/-- What the row number has beyond 24 bits is joined to the table number. -/
theorem tableNumber_join (h : row < 0x100000000) :
    (join table row).tableNumber = table.number ||| row / rowBound := by
  have hb : rowBound = 2 ^ 24 := rfl
  rw [tableNumber, toNat_join table h, hb, Nat.or_div_two_pow,
    Nat.mul_div_cancel _ (Nat.two_pow_pos 24)]

/-- The row of a token has 24 bits. -/
theorem row_join (h : row < 0x100000000) : (join table row).row = row % rowBound := by
  have hb : rowBound = 2 ^ 24 := rfl
  rw [Token.row, toNat_join table h, hb, Nat.or_mod_two_pow, Nat.mul_mod_left, Nat.zero_or]

theorem join_of_fits (h : row < rowBound) : join table row = ofRow table row := by
  rw [join, Compressed.join_table_row table h, ofRow, Nat.mod_eq_of_lt h]

end

end Token

namespace Compressed

theorem tokenTable?_eq_some {value : Nat} {table : TableId}
    (h : tokenTable? value = some table) :
    (value % 4 = 0 ∧ table = .typeDef) ∨ (value % 4 = 1 ∧ table = .typeRef) ∨
      (value % 4 = 2 ∧ table = .typeSpec) := by
  unfold tokenTable? at h
  split at h
  · next htag => exact Or.inl ⟨htag, (Option.some.inj h).symm⟩
  · next htag => exact Or.inr (Or.inl ⟨htag, (Option.some.inj h).symm⟩)
  · next htag => exact Or.inr (Or.inr ⟨htag, (Option.some.inj h).symm⟩)
  · cases h

theorem token_eq_ok {cursor stop : Cursor} {found : Token}
    (h : token cursor = (.ok found, stop)) :
    ∃ value table, number cursor = (.ok value, stop) ∧ tokenTable? value = some table ∧
      found = Token.join table (value / 4) := by
  obtain ⟨value, middle, hnumber, h⟩ := bind_eq_ok h
  cases htable : tokenTable? value with
  | none =>
    rw [htable] at h
    exact absurd (congrArg Prod.fst h) (by simp)
  | some table =>
    rw [htable] at h
    obtain ⟨hfound, rfl⟩ := Prod.mk.inj h
    exact ⟨value, table, hnumber, htable, (Except.ok.inj hfound).symm⟩

/-- **The parts of a compressed token.** The two low bits of the number select the table, and the
    others are the row as long as it has 24 bits at most. A longer row loses its high bits to the
    table byte, so that the token is one of another row. -/
theorem token_parts {cursor stop : Cursor} {found : Token}
    (h : token cursor = (.ok found, stop)) :
    ∃ value table, number cursor = (.ok value, stop) ∧
      ((value % 4 = 0 ∧ table = .typeDef) ∨ (value % 4 = 1 ∧ table = .typeRef) ∨
        (value % 4 = 2 ∧ table = .typeSpec)) ∧
      (value / 4 < Token.rowBound → found.table? = some table ∧ found.row = value / 4) ∧
      (Token.rowBound ≤ value / 4 → found.row ≠ value / 4 ∧
        found.row = value / 4 % Token.rowBound ∧
        found.tableNumber = table.number ||| value / 4 / Token.rowBound) := by
  obtain ⟨value, table, hnumber, htable, rfl⟩ := token_eq_ok h
  have hvalue := lt_bound_of_number hnumber
  simp only [bound] at hvalue
  have hword : value / 4 < 0x100000000 := by omega
  refine ⟨value, table, hnumber, tokenTable?_eq_some htable, ?_, ?_⟩
  · intro hfits
    rw [Token.join_of_fits table hfits, Token.table?_ofRow, Token.row_ofRow,
      Nat.mod_eq_of_lt hfits]
    exact ⟨rfl, rfl⟩
  · intro hlong
    have hrow := Token.row_join table hword
    have hlt : value / 4 % Token.rowBound < Token.rowBound := Nat.mod_lt _ (by decide)
    exact ⟨by omega, hrow, Token.tableNumber_join table hword⟩

/-- The token of a written number, which is all of the data. -/
theorem token_encode {value : Nat} (h : value < bound) {table : TableId}
    (ht : tokenTable? value = some table) :
    let data := (encode value).toByteArray
    let stop : Cursor := { data, pos := (encode value).length }
    number { data } = (.ok value, stop) ∧
      token { data } = (.ok (Token.join table (value / 4)), stop) := by
  intro data stop
  have hnumber : number { data } = (.ok value, stop) := by
    have hr := reads_number h { data } [] (by simpa using Cursor.sees_start (encode value))
    rw [hr, Cursor.forward, Nat.zero_add]
  refine ⟨hnumber, ?_⟩
  rw [token, bind_apply_ok hnumber, ht]
  rfl

/-- The token of row 0x1000001 of the table of specifications is that of row 1. -/
theorem token_parts_longRow :
    let data := (encode 0x4000006).toByteArray
    token { data } = (.ok ⟨0x1B000001⟩, { data, pos := 4 }) ∧
      number { data } = (.ok 0x4000006, { data, pos := 4 }) ∧
      (⟨0x1B000001⟩ : Token).row ≠ 0x4000006 / 4 := by
  intro data
  obtain ⟨hvalue, hread⟩ := token_encode (show 0x4000006 < bound by decide) rfl
  obtain ⟨value, table, hnumber, -, -, hlong⟩ := token_parts hread
  obtain rfl : 0x4000006 = value := Except.ok.inj (congrArg Prod.fst (hvalue.symm.trans hnumber))
  exact ⟨hread, hvalue, (hlong (by decide)).1⟩

/-- A number that selects row 0x1000001 of the defined types gives the token of row 1 of a table
    that no type is in. -/
theorem token_joined :
    let data := (encode 0x4000004).toByteArray
    number { data } = (.ok 0x4000004, { data, pos := 4 }) ∧
      tokenTable? 0x4000004 = some .typeDef ∧ 0x4000004 / 4 = 0x1000001 ∧
      ∃ found, token { data } = (.ok found, { data, pos := 4 }) ∧
        found.table? = some .fieldPtr ∧ found.row = 1 := by
  intro data
  obtain ⟨hvalue, hread⟩ := token_encode (show 0x4000004 < bound by decide) rfl
  exact ⟨hvalue, rfl, rfl, _, hread, by decide, by decide⟩

end Compressed

end ApiCensus
