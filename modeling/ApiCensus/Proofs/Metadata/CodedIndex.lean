/-
  Coded indexes read back.

  * `CodedKind.tableOf`, `CodedIndex.ofToken`: the table and the row that a token stands for in
    the columns of a kind.
  * `CodedKind.tableOf_eq`: the table is that of the token, if the kind has it.
  * `CodedIndex.decode_encode`: what is written for a token decodes to them.
-/
import ApiCensus.Metadata.CodedIndex

namespace ApiCensus

namespace CodedKind

/-- The table that a token stands for: its own, if the kind has it, and otherwise the first one
    of the kind. An attribute constructor that is no reference is a method. -/
def tableOf (kind : CodedKind) (token : Token) : TableId :=
  match kind with
  | .customAttributeType => if token.isIn .memberRef then .memberRef else .methodDef
  | kind => (kind.tables.find? token.isIn).getD (kind.tables.headD .module)

theorem length_tables_le (kind : CodedKind) : kind.tables.length ≤ 1 <<< kind.tagBits := by
  cases kind <;> decide

/-- A list at the place of the first item that fits. -/
theorem getElem?_findIdx? (tables : List TableId) (fits : TableId → Bool) (other : TableId)
    (hne : tables ≠ []) :
    tables[(tables.findIdx? fits).getD 0]? =
      some ((tables.find? fits).getD (tables.headD other)) := by
  obtain ⟨first, rest, rfl⟩ := List.exists_cons_of_ne_nil hne
  cases hfound : (first :: rest).findIdx? fits with
  | none =>
    have hnone : (first :: rest).find? fits = none :=
      List.find?_eq_none.2 fun table ht => by
        simpa using List.findIdx?_eq_none_iff.1 hfound table ht
    rw [hnone]
    rfl
  | some place =>
    obtain ⟨hlt, hfits, hbefore⟩ := List.findIdx?_eq_some_iff_getElem.1 hfound
    have hsome : (first :: rest).find? fits = some (first :: rest)[place] :=
      List.find?_eq_some_iff_getElem.2 ⟨hfits, place, hlt, rfl, fun j hj => by
        simpa using hbefore j hj⟩
    rw [hsome, Option.getD_some, Option.getD_some, List.getElem?_eq_getElem hlt]

/-- The table of a token stands at the place of the tag. -/
theorem getElem?_tagOf (kind : CodedKind) (token : Token) :
    kind.tables[CodedIndex.tagOf kind token]? = some (kind.tableOf token) := by
  cases kind with
  | customAttributeType =>
    rw [CodedIndex.tagOf, tableOf]
    split <;> rfl
  | _ => exact getElem?_findIdx? _ _ _ (by simp [tables])

/-- A token stands for its own table if the kind has that. -/
theorem tableOf_eq {kind : CodedKind} {token : Token} {table : TableId} (ht : token.isIn table)
    (hm : table ∈ kind.tables) : kind.tableOf token = table := by
  have hsame : ∀ {other : TableId}, token.isIn other → other = table := fun ho =>
    Option.some.inj ((Token.table?_of_isIn ho).symm.trans (Token.table?_of_isIn ht))
  have hfound : (kind.tables.find? token.isIn).getD (kind.tables.headD .module) = table := by
    obtain ⟨found, hfound⟩ := Option.isSome_iff_exists.1
      (List.find?_isSome.2 ⟨table, hm, ht⟩ : (kind.tables.find? token.isIn).isSome)
    rw [hfound]
    exact hsame (List.find?_some hfound)
  cases kind with
  | customAttributeType =>
    rw [tableOf]
    split
    · exact hsame ‹_›
    · have hm : table = .methodDef ∨ table = .memberRef := by simpa [tables] using hm
      rcases hm with rfl | rfl
      · rfl
      · contradiction
  | _ => exact hfound

end CodedKind

namespace CodedIndex

/-- The table and the row that a token stands for in the columns of a kind. -/
def ofToken (kind : CodedKind) (token : Token) : CodedIndex :=
  { table := kind.tableOf token, row := token.row }

theorem tagOf_lt (kind : CodedKind) (token : Token) : tagOf kind token < 1 <<< kind.tagBits := by
  obtain ⟨hlt, -⟩ := List.getElem?_eq_some_iff.1 (kind.getElem?_tagOf token)
  exact Nat.lt_of_lt_of_le hlt kind.length_tables_le

/-- **What is written for a token decodes to the table and the row of the token.** -/
theorem decode_encode (kind : CodedKind) (token : Token) :
    decode kind (encode kind token) = .ok (ofToken kind token) := by
  have htag := tagOf_lt kind token
  rw [Nat.one_shiftLeft] at htag
  have hmod : encode kind token % (1 <<< kind.tagBits) = tagOf kind token := by
    rw [encode, Nat.shiftLeft_eq, Nat.one_shiftLeft, Nat.mul_comm, Nat.mul_add_mod,
      Nat.mod_eq_of_lt htag]
  have hrow : encode kind token >>> kind.tagBits = token.row := by
    rw [encode, Nat.shiftLeft_eq, Nat.shiftRight_eq_div_pow, Nat.mul_comm,
      Nat.mul_add_div (Nat.two_pow_pos _), Nat.div_eq_of_lt htag, Nat.add_zero]
  simp only [decode, hmod, hrow, kind.getElem?_tagOf token]
  rfl

end CodedIndex

end ApiCensus
