/-
  Metadata tokens: a table number and a row number in one word.

  * `Token.ofRow`: the token of a row; only the low 24 bits of the row number fit.
  * `Token.row_ofRow`, `Token.table?_ofRow`: what a token was made of is read back from it.
-/
import ApiCensus.Metadata.TableId
import ApiCensus.Text.Hex

namespace ApiCensus

/-- A metadata token: the table number in the high byte, the row number in the 24 bits
    below it. Row number 0 is the null token of a table. -/
structure Token where
  value : UInt32
  deriving Repr, DecidableEq, Hashable, Inhabited

namespace Token

/-- One more than the highest row number that fits a token. -/
def rowBound : Nat := 0x1000000

/-- The token with the low 32 bits of `n`. -/
def ofNat (n : Nat) : Token :=
  ⟨UInt32.ofNat n⟩

/-- The token of a row of a table. -/
def ofRow (table : TableId) (row : Nat) : Token :=
  ofNat (table.number * rowBound + row % rowBound)

/-- The number in the table byte. -/
def tableNumber (token : Token) : Nat :=
  token.value.toNat / rowBound

/-- The table, if the table byte is the number of one. -/
def table? (token : Token) : Option TableId :=
  TableId.ofNumber? token.tableNumber

/-- The row number. -/
def row (token : Token) : Nat :=
  token.value.toNat % rowBound

/-- The token points at no row. -/
def isNil (token : Token) : Bool :=
  token.row == 0

/-- The token points into a table. -/
def isIn (token : Token) (table : TableId) : Bool :=
  token.tableNumber == table.number

theorem toNat_ofRow (table : TableId) (row : Nat) :
    (ofRow table row).value.toNat = table.number * rowBound + row % rowBound := by
  have ht := table.number_lt
  have hr : row % rowBound < rowBound := Nat.mod_lt _ (by decide)
  simp only [ofRow, ofNat, rowBound, TableId.count, UInt32.toNat_ofNat'] at *
  omega

@[simp] theorem row_ofRow (table : TableId) (row : Nat) :
    (ofRow table row).row = row % rowBound := by
  rw [Token.row, toNat_ofRow]
  simp

@[simp] theorem tableNumber_ofRow (table : TableId) (row : Nat) :
    (ofRow table row).tableNumber = table.number := by
  have hr : row % rowBound < rowBound := Nat.mod_lt _ (by decide)
  rw [tableNumber, toNat_ofRow]
  simp only [rowBound] at *
  omega

@[simp] theorem table?_ofRow (table : TableId) (row : Nat) :
    (ofRow table row).table? = some table := by
  simp [table?]

/-- The table of a token, told by its number. -/
theorem table?_of_isIn {token : Token} {table : TableId} (h : token.isIn table) :
    token.table? = some table := by
  rw [table?, eq_of_beq h, TableId.ofNumber?_number]

theorem isIn_iff {token : Token} {table : TableId} :
    token.isIn table ↔ token.table? = some table :=
  ⟨table?_of_isIn, fun h => beq_iff_eq.2 (TableId.number_of_ofNumber? h).symm⟩

/-- A token is made of its table and its row. -/
theorem ofRow_row {token : Token} {table : TableId} (h : token.isIn table) :
    ofRow table token.row = token := by
  have ht : token.value.toNat / rowBound = table.number := eq_of_beq h
  have hv := toNat_ofRow table token.row
  have hm : token.row % rowBound = token.row := Nat.mod_mod _ _
  have hd := Nat.div_add_mod token.value.toNat rowBound
  have he : (ofRow table token.row).value = token.value := by
    apply UInt32.toNat_inj.1
    rw [hv, hm, ← ht, row, Nat.mul_comm, hd]
  cases token
  exact congrArg Token.mk he

/-- The word in eight hexadecimal digits. -/
protected def toString (token : Token) : String :=
  "0x" ++ Hex.ofNat 8 token.value.toNat

instance : ToString Token := ⟨Token.toString⟩

/-- The word together with its two parts. -/
def describe (token : Token) : String :=
  s!"Token({token}, table: 0x{Hex.ofNat 2 token.tableNumber}, row: {token.row})"

end Token

end ApiCensus
