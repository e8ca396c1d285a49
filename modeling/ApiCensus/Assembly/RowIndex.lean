/-
  Rows grouped by one of their columns.

  * `RowIndex.group`: the index of a list of keys and values.
  * `RowIndex.get_group`: a key finds the values that were listed with it, in order.
-/
import Std.Data.HashMap.Lemmas

namespace ApiCensus

/-- Values found by a key. -/
structure RowIndex (κ α : Type) [BEq κ] [Hashable κ] where
  /-- The values of each key. -/
  entries : Std.HashMap κ (List α) := ∅

namespace RowIndex

variable {κ α : Type} [BEq κ] [Hashable κ]

/-- The values of a key, none for a key that does not occur. -/
def get (index : RowIndex κ α) (key : κ) : List α :=
  index.entries.getD key []

/-- Puts a value in front of those of its key. -/
def add (entry : κ × α) (index : RowIndex κ α) : RowIndex κ α :=
  { entries := index.entries.insert entry.1 (entry.2 :: index.get entry.1) }

/-- The index of a list. -/
def group (entries : List (κ × α)) : RowIndex κ α :=
  entries.foldr add {}

@[simp] theorem get_empty (key : κ) : ({} : RowIndex κ α).get key = [] := by
  simp [get]

/-- A key finds the values that were listed with it, in order. -/
theorem get_group [LawfulBEq κ] (entries : List (κ × α)) (key : κ) :
    (group entries).get key = (entries.filter fun entry => entry.1 == key).map Prod.snd := by
  induction entries with
  | nil => simp [group]
  | cons entry rest ih =>
    have step : group (entry :: rest) = add entry (group rest) := rfl
    rw [step, get, add]
    simp only [Std.HashMap.getD_insert, List.filter_cons]
    by_cases h : entry.1 == key
    · have : entry.1 = key := eq_of_beq h
      subst this
      simp [ih]
    · simp only [h, Bool.false_eq_true, if_false]
      exact ih

end RowIndex

end ApiCensus
