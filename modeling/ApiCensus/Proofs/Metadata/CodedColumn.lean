/-
  A coded index fits the column that is laid out for it.

  * `Layout.lt_two_pow_bits`: the rows of a table have as many bits as are counted for them.
  * `CodedIndex.encode_lt_bound`: so what is written for a row that there is fits the column.
  * `CodedIndex.reads_encode`: the column is read as that row again.
-/
import ApiCensus.Proofs.Bytes.Reading
import ApiCensus.Proofs.Metadata.CodedIndex
import Mathlib.Algebra.Group.Nat.Defs

namespace ApiCensus

/-! ## Bits -/

namespace Layout

variable (layout : Layout)

theorem lt_two_pow_bits {table : TableId} {row : Nat} (h : row ≤ layout.rowCount table) :
    row < 2 ^ layout.bits table := by
  rw [bits]
  split
  · omega
  · rename_i count hcount
    exact Nat.lt_of_le_of_lt h Nat.lt_log2_self

theorem le_foldl_max {values : List Nat} {value most : Nat} (h : value ∈ values ∨ value ≤ most) :
    value ≤ values.foldl max most := by
  induction values generalizing most with
  | nil => simpa using h
  | cons first values ih =>
    refine ih ?_
    rcases h with hmem | hle
    · rcases List.mem_cons.1 hmem with rfl | hmem
      · exact .inr (Nat.le_max_right most value)
      · exact .inl hmem
    · exact .inr (Nat.le_trans hle (Nat.le_max_left most first))

/-- The bits of a coded index are enough for the rows of each of its tables. -/
theorem bits_add_tagBits_le {kind : CodedKind} {table : TableId} (h : table ∈ kind.tables) :
    layout.bits table + kind.tagBits ≤ layout.codedBits kind :=
  Nat.add_le_add_right (le_foldl_max (.inl (List.mem_map_of_mem h))) kind.tagBits

end Layout

/-! ## Columns -/

namespace CodedIndex

variable {layout : Layout} {kind : CodedKind} {table : TableId} {row : Nat}

theorem encode_lt_two_pow {token : Token} {bits : Nat} (h : token.row < 2 ^ bits) :
    encode kind token < 2 ^ (bits + kind.tagBits) := by
  have htag := tagOf_lt kind token
  rw [Nat.one_shiftLeft] at htag
  calc encode kind token = token.row * 2 ^ kind.tagBits + tagOf kind token := by
        rw [encode, Nat.shiftLeft_eq]
    _ < (token.row + 1) * 2 ^ kind.tagBits := by
        rw [Nat.succ_mul]
        exact Nat.add_lt_add_left htag _
    _ ≤ 2 ^ bits * 2 ^ kind.tagBits := Nat.mul_le_mul_right _ h
    _ = 2 ^ (bits + kind.tagBits) := (Nat.pow_add ..).symm

/-- What is written for a row of one of the tables of a kind fits the column. -/
theorem encode_lt_bound (hm : table ∈ kind.tables) (hrow : row ≤ layout.rowCount table)
    (hcount : layout.rowCount table < Token.rowBound) :
    encode kind (Token.ofRow table row) < LittleEndian.bound (layout.codedBytes kind) := by
  have hrow' : (Token.ofRow table row).row = row := by
    rw [Token.row_ofRow, Nat.mod_eq_of_lt (Nat.lt_of_le_of_lt hrow hcount)]
  rw [Layout.codedBytes, Layout.isCodedLarge]
  by_cases hlarge : 16 < layout.codedBits kind
  · -- Four bytes hold the 24 bits of a row and the tag of any kind.
    have htag : 24 + kind.tagBits ≤ 32 := by cases kind <;> decide
    have hfits : row < 2 ^ 24 := Nat.lt_of_le_of_lt hrow hcount
    rw [decide_eq_true hlarge]
    exact Nat.lt_of_lt_of_le (encode_lt_two_pow (by rwa [hrow']))
      (Nat.pow_le_pow_right Nat.two_pos htag)
  · have hbits := layout.bits_add_tagBits_le hm
    have hfits := layout.lt_two_pow_bits hrow
    rw [decide_eq_false hlarge]
    exact Nat.lt_of_lt_of_le (encode_lt_two_pow (by rwa [hrow']))
      (Nat.pow_le_pow_right Nat.two_pos (Nat.le_trans hbits (Nat.le_of_not_lt hlarge)))

/-- **A row that there is, of any table of a kind of coded index, fits the column that the row
    counts require, and is read back from there, whatever follows: the same table and row, and the
    same token.** -/
theorem reads_encode (layout : Layout) (hm : table ∈ kind.tables)
    (hrow : row ≤ layout.rowCount table) (hcount : layout.rowCount table < Token.rowBound) :
    let value := encode kind (Token.ofRow table row)
    value < LittleEndian.bound (layout.codedBytes kind) ∧
      (LittleEndian.encode (layout.codedBytes kind) value).length = layout.codedBytes kind ∧
      Cursor.Reads (read layout kind) (LittleEndian.encode (layout.codedBytes kind) value)
        { table, row } ∧
      CodedIndex.token { table, row } = Token.ofRow table row := by
  have hlt := encode_lt_bound hm hrow hcount
  have hin : (Token.ofRow table row).isIn table := by simp [Token.isIn]
  have hindex : ofToken kind (Token.ofRow table row) = { table, row } := by
    rw [ofToken, CodedKind.tableOf_eq hin hm, Token.row_ofRow,
      Nat.mod_eq_of_lt (Nat.lt_of_le_of_lt hrow hcount)]
  refine ⟨hlt, LittleEndian.length_encode _ _, ?_, rfl⟩
  refine (Cursor.reads_number hlt).bind_nil ?_
  rw [decode_encode, hindex]
  exact Cursor.reads_pure _

/-- The layout of a module with so many events, and three rows in every other table. -/
def crowdedLayout (count : Nat) : Layout :=
  .ofCounts (Vector.ofFn fun number => if number = TableId.event.number then count else 3) 0

theorem reads_encode_crowded :
    let bytes := LittleEndian.encode 2 (encode .hasCustomAttribute (Token.ofRow .event 0x7FF))
    TableId.event ∈ CodedKind.hasCustomAttribute.tables ∧
      0x7FF ≤ (crowdedLayout 0x7FF).rowCount .event ∧
      (crowdedLayout 0x7FF).rowCount .event < Token.rowBound ∧
      bytes = [0xEA, 0xFF] ∧
      Cursor.Reads (read (crowdedLayout 0x7FF) .hasCustomAttribute) bytes ⟨.event, 0x7FF⟩ ∧
      (crowdedLayout 0x800).codedBytes .hasCustomAttribute = 4 := by
  have hm : TableId.event ∈ CodedKind.hasCustomAttribute.tables := by decide
  have hrow : 0x7FF ≤ (crowdedLayout 0x7FF).rowCount .event := by decide
  have hcount : (crowdedLayout 0x7FF).rowCount .event < Token.rowBound := by decide
  obtain ⟨-, -, hreads, -⟩ := reads_encode (crowdedLayout 0x7FF) hm hrow hcount
  exact ⟨hm, hrow, hcount, by decide, hreads, by decide⟩

end CodedIndex

end ApiCensus
