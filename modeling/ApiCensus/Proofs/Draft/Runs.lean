/-
  The members of a type are found as a run of rows.

  A module tells where the run of a type starts. There it either has a number for every type, or
  a list of the types that have members.

  * `runOwned`: the run of a type, given the owners of all members.
  * `clamp_cutRun`: what is found where there is a number for every type, as far as the columns
    hold these numbers.
  * `getElem?_runsOf`: what is found where there is a list.
-/
import ApiCensus.Assembly.Members
import ApiCensus.Proofs.Draft.Members
import Mathlib.Tactic.SplitIfs
import Std.Data.HashMap.Lemmas

namespace ApiCensus

open ModuleDraft (firstOf runStarts)

/-! ## Runs -/

theorem firstOf_succ (owners : List Nat) (type : Nat) :
    firstOf owners (type + 1) = firstOf owners type + owners.count type := by
  induction owners with
  | nil => rfl
  | cons owner owners ih =>
    simp only [firstOf, List.countP_cons, List.count_cons, decide_eq_true_eq, beq_iff_eq] at ih ⊢
    split_ifs <;> omega

theorem firstOf_le (owners : List Nat) (type : Nat) : firstOf owners type ≤ owners.length + 1 :=
  Nat.succ_le_succ List.countP_le_length

theorem firstOf_eq_iff {owners : List Nat} {type : Nat} :
    firstOf owners type = owners.length + 1 ↔ ∀ owner ∈ owners, owner < type := by
  rw [firstOf, Nat.add_right_cancel_iff, List.countP_eq_length]
  simp only [decide_eq_true_eq]

/-- The run of the members of a type, given the owners of all members. -/
def runOwned (owners : List Nat) (type : Nat) : Run where
  start := firstOf owners type
  stop := firstOf owners (type + 1)

theorem toList_runOwned {owners : List Nat} (h : owners.Pairwise (· ≤ ·)) (type : Nat) :
    (runOwned owners type).toList = rowsOwned type 1 owners := by
  rw [rowsOwned_eq_range' h, runOwned, Run.toList, firstOf_succ, Nat.add_sub_cancel_left, firstOf,
    Nat.add_comm]

theorem clamp_runOwned (owners : List Nat) (type : Nat) :
    (runOwned owners type).clamp (owners.length + 1) = runOwned owners type := by
  have hpos : 1 ≤ firstOf owners type := Nat.succ_pos _
  have hle := firstOf_le owners type
  have hle' := firstOf_le owners (type + 1)
  have hstep := firstOf_succ owners type
  rw [runOwned, Run.clamp, Run.mk.injEq]
  dsimp only
  omega

theorem mem_clamp {run : Run} {bound index : Nat} (hbound : 0 < bound)
    (h : index ∈ (run.clamp bound).toList) : 1 ≤ index ∧ index < bound := by
  obtain ⟨hpos, -, hle⟩ := Run.inside_clamp hbound run
  obtain ⟨hstart, hstop⟩ := Run.mem_toList.1 h
  exact ⟨Nat.le_trans hpos hstart, Nat.lt_of_lt_of_le hstop hle⟩

/-! ## A number for every type -/

/-- What a column of two bytes keeps of the number behind `0xFFFF` members: nothing. Any other
    number is kept. -/
def cutFirst (owners : List Nat) (type : Nat) : Nat :=
  if owners.length = 0xFFFF ∧ ∀ owner ∈ owners, owner < type then 0 else firstOf owners type

theorem firstOf_mod {owners : List Nat} (type : Nat)
    (hlength : owners.length + 1 < LittleEndian.bound 4) :
    firstOf owners type % LittleEndian.bound (Layout.width (0xFFFF < owners.length)) =
      cutFirst owners type := by
  have hle := firstOf_le owners type
  have hlt : LittleEndian.bound (Layout.width (0xFFFF < owners.length)) =
      if 0xFFFF < owners.length then LittleEndian.bound 4 else 0x10000 := by
    by_cases hlarge : 0xFFFF < owners.length
    · rw [decide_eq_true hlarge, if_pos hlarge]
      rfl
    · rw [decide_eq_false hlarge, if_neg hlarge]
      rfl
  rw [hlt, cutFirst]
  by_cases hcut : owners.length = 0xFFFF ∧ ∀ owner ∈ owners, owner < type
  · rw [if_pos hcut, firstOf_eq_iff.2 hcut.2, hcut.1]
    rfl
  · rw [if_neg hcut]
    refine Nat.mod_eq_of_lt ?_
    rw [← firstOf_eq_iff] at hcut
    split_ifs <;> omega

/-- The run of a type as it is found where there is a number for every type. -/
def cutRun (owners : List Nat) (types type : Nat) : Run where
  start := cutFirst owners type
  stop := if type < types then cutFirst owners (type + 1) else owners.length + 1

/-- The number behind the last member is lost, and types that have no members follow. -/
def Displaced (owners : List Nat) (types : Nat) : Prop :=
  owners.length = 0xFFFF ∧ ∀ owner ∈ owners, owner < types

variable {owners : List Nat} {types type : Nat}

/-- The members of a type are found. -/
theorem clamp_cutRun (howners : ∀ owner ∈ owners, owner ≤ types) (htype : type ≤ types)
    (h : ¬ Displaced owners types) :
    (cutRun owners types type).clamp (owners.length + 1) = runOwned owners type := by
  have hkept : ∀ {other : Nat}, other ≤ types → cutFirst owners other = firstOf owners other := by
    intro other hother
    refine if_neg ?_
    rintro ⟨hlength, hbefore⟩
    exact h ⟨hlength, fun owner hmem => Nat.lt_of_lt_of_le (hbefore owner hmem) hother⟩
  have hstop : (cutRun owners types type).stop = firstOf owners (type + 1) := by
    by_cases hlt : type < types
    · exact (if_pos hlt).trans (hkept hlt)
    · refine (if_neg hlt).trans (firstOf_eq_iff.2 fun owner hmem => ?_).symm
      have hle := howners owner hmem
      omega
  have hrun : cutRun owners types type = runOwned owners type :=
    congrArg₂ Run.mk (hkept htype) hstop
  rw [hrun, clamp_runOwned]

/-- Otherwise the last type has all members. -/
theorem clamp_cutRun_last (h : Displaced owners types) :
    ((cutRun owners types types).clamp (owners.length + 1)).toList = List.range' 1 0xFFFF := by
  have hcut : cutFirst owners types = 0 := if_pos h
  rw [cutRun, hcut, if_neg (Nat.lt_irrefl types), h.1]
  rfl

/-- The type that they belong to has none, as those that follow it. -/
theorem clamp_cutRun_owner (h : Displaced owners types) (htype : type < types)
    (hlast : ∀ owner ∈ owners, owner ≤ type) :
    ((cutRun owners types type).clamp (owners.length + 1)).toList = [] := by
  have hcut : cutFirst owners (type + 1) = 0 :=
    if_pos ⟨h.1, fun owner hmem => Nat.lt_succ_of_le (hlast owner hmem)⟩
  rw [cutRun, if_pos htype, hcut, Run.toList, Run.clamp, List.range'_eq_nil_iff]
  simp only
  omega

/-- All other types have their own. -/
theorem clamp_cutRun_before (htype : type < types)
    (hlast : ¬ ∀ owner ∈ owners, owner ≤ type) :
    (cutRun owners types type).clamp (owners.length + 1) = runOwned owners type := by
  have hkept : ∀ {other : Nat}, other ≤ type + 1 →
      cutFirst owners other = firstOf owners other := by
    intro other hother
    refine if_neg ?_
    rintro ⟨-, hbefore⟩
    refine hlast fun owner hmem => ?_
    have hlt := hbefore owner hmem
    omega
  have hrun : cutRun owners types type = runOwned owners type :=
    congrArg₂ Run.mk (hkept (Nat.le_succ type)) ((if_pos htype).trans (hkept (Nat.le_refl _)))
  rw [hrun, clamp_runOwned]

/-! ## A list of the types that have members -/

/-- The types that have members, each with its first one, in the form that they are read in. -/
def startsOf (last : Option Nat) (number : Nat) : List Nat → List (Nat × Nat)
  | [] => []
  | owner :: owners =>
    if last = some owner then startsOf last (number + 1) owners
    else (owner, number) :: startsOf (some owner) (number + 1) owners

theorem runStarts_eq (last : Option Nat) (number : Nat) (owners : List Nat) :
    runStarts last number owners =
      (startsOf last number owners).map fun start => [start.1, start.2] := by
  induction owners generalizing last number with
  | nil => rfl
  | cons owner owners ih =>
    rw [runStarts, startsOf]
    split
    · exact ih _ _
    · rw [ih]
      rfl

theorem mem_startsOf {last : Option Nat} {number : Nat} {start : Nat × Nat}
    (h : start ∈ startsOf last number owners) :
    start.1 ∈ owners ∧ start.2 < number + owners.length := by
  induction owners generalizing last number with
  | nil => cases h
  | cons owner owners ih =>
    rw [startsOf] at h
    rw [List.length_cons, List.mem_cons]
    split at h
    · obtain ⟨howner, hlt⟩ := ih h
      exact ⟨.inr howner, by omega⟩
    · rcases List.mem_cons.1 h with rfl | h
      · exact ⟨.inl rfl, by simp⟩
      · obtain ⟨howner, hlt⟩ := ih h
        exact ⟨.inr howner, by omega⟩

/-- The number that the run before a list of runs ends with. -/
def stopBefore (bound : Nat) : List (Nat × Nat) → Nat
  | [] => bound
  | (_, next) :: _ => next

theorem runsOf_cons (bound owner number : Nat) (starts : List (Nat × Nat))
    (runs : Std.HashMap Nat Run) : Assembly.runsOf bound ((owner, number) :: starts) runs =
      Assembly.runsOf bound starts (runs.insert owner
        (Run.clamp { start := number, stop := stopBefore bound starts } bound)) := by
  cases starts <;> rfl

/-- A run ends behind the last member of its type. -/
theorem stopBefore_startsOf {owner : Nat} (h : owners.Pairwise (· ≤ ·))
    (hle : ∀ other ∈ owners, owner ≤ other) (number : Nat) :
    stopBefore (number + owners.length) (startsOf (some owner) number owners) =
      number + owners.count owner := by
  induction owners generalizing number with
  | nil => rfl
  | cons other owners ih =>
    obtain ⟨hother, hrest⟩ := List.pairwise_cons.1 h
    rw [startsOf]
    by_cases hsame : owner = other
    · subst hsame
      rw [if_pos rfl, List.count_cons_self, ← Nat.add_assoc, Nat.add_right_comm, ← ih hrest hother,
        List.length_cons, ← Nat.add_assoc, Nat.add_right_comm]
    · have hnone : (other :: owners).count owner = 0 := by
        refine List.count_eq_zero_of_not_mem fun hmem => ?_
        have hlt := Nat.lt_of_le_of_ne (hle other List.mem_cons_self) hsame
        rcases List.mem_cons.1 hmem with rfl | hmem
        · exact hsame rfl
        · exact Nat.not_le_of_lt hlt (hother owner hmem)
      rw [if_neg (by simpa using hsame), hnone]
      rfl

/-- The run of a type, given the owners of all members from `number` on. -/
def runFrom (number : Nat) (owners : List Nat) (type : Nat) : Run where
  start := number + owners.countP (· < type)
  stop := number + owners.countP (· < type) + owners.count type

theorem runFrom_one (owners : List Nat) (type : Nat) :
    runFrom 1 owners type = runOwned owners type := by
  rw [runFrom, runOwned, firstOf_succ, firstOf, Nat.add_comm 1]

theorem runFrom_cons_of_lt {owner : Nat} (h : owner < type) (number : Nat) (owners : List Nat) :
    runFrom number (owner :: owners) type = runFrom (number + 1) owners type := by
  rw [runFrom, runFrom, List.countP_cons_of_pos (by simpa using h),
    List.count_cons_of_ne (Nat.ne_of_lt h), ← Nat.add_assoc, Nat.add_right_comm]

theorem runFrom_cons_self (hle : ∀ other ∈ owners, type ≤ other) (number : Nat) :
    runFrom number (type :: owners) type =
      { start := number, stop := number + 1 + owners.count type } := by
  have hbefore : owners.countP (· < type) = 0 :=
    List.countP_eq_zero.2 fun other hother => by simpa using hle other hother
  rw [runFrom, List.countP_cons_of_neg (by simp), hbefore, List.count_cons_self, Nat.add_zero,
    Nat.add_assoc, Nat.add_comm 1]

/-- **The run of every type that has members is found where they are listed.** -/
theorem getElem?_runsOf (h : owners.Pairwise (· ≤ ·)) {last : Option Nat}
    (hlast : ∀ before ∈ last, ∀ owner ∈ owners, before ≤ owner) (number : Nat)
    (runs : Std.HashMap Nat Run) (type : Nat) :
    (Assembly.runsOf (number + owners.length) (startsOf last number owners) runs)[type]? =
      if type ∈ owners ∧ last ≠ some type then
        some ((runFrom number owners type).clamp (number + owners.length))
      else runs[type]? := by
  induction owners generalizing last number runs with
  | nil => simp [startsOf, Assembly.runsOf]
  | cons owner owners ih =>
    obtain ⟨hle, hrest⟩ := List.pairwise_cons.1 h
    have hbound : number + (owner :: owners).length = number + 1 + owners.length := by
      rw [List.length_cons, ← Nat.add_assoc, Nat.add_right_comm]
    have hlater : ∀ {other : Nat}, other ∈ owners → owner ≠ other → owner < other :=
      fun hmem hne => Nat.lt_of_le_of_ne (hle _ hmem) hne
    have hgoes : ∀ before ∈ some owner, ∀ other ∈ owners, before ≤ other := by
      rintro _ ⟨⟩
      exact hle
    rw [startsOf, hbound]
    by_cases hsame : last = some owner
    · rw [if_pos hsame, hsame, ih hrest hgoes]
      by_cases hfound : type ∈ owners ∧ owner ≠ type
      · have hlt := hlater hfound.1 hfound.2
        rw [if_pos (by simpa using hfound), if_pos (by simp [hfound]), runFrom_cons_of_lt hlt]
      · rw [if_neg (by simpa using hfound), if_neg]
        rintro ⟨hmem, hne⟩
        rcases List.mem_cons.1 hmem with rfl | hmem
        · exact hne rfl
        · exact hfound ⟨hmem, fun hown => hne (congrArg some hown)⟩
    · rw [if_neg hsame, runsOf_cons, stopBefore_startsOf hrest hle, ih hrest hgoes,
        Std.HashMap.getElem?_insert]
      by_cases hown : owner = type
      · subst hown
        rw [if_neg (by simp), if_pos (by simp), if_pos ⟨List.mem_cons_self, hsame⟩,
          runFrom_cons_self hle]
      · by_cases hmem : type ∈ owners
        · have hlt := hlater hmem hown
          rw [if_pos ⟨hmem, by simpa using hown⟩, runFrom_cons_of_lt hlt, if_pos]
          refine ⟨List.mem_cons_of_mem owner hmem, ?_⟩
          rintro rfl
          exact Nat.not_le_of_lt hlt (hlast _ rfl owner List.mem_cons_self)
        · rw [if_neg (by simp [hmem]), if_neg (by simpa using hown), if_neg]
          simp [hmem, Ne.symm hown]

end ApiCensus
