/-
  A crawl ends, whatever its assembly leads to.

  * `Assembly.Encloses`: a row puts a type inside another one, which a crawl does not leave out.
  * `Assembly.crawlType_ends_badly`: types that enclose each other in a circle are never crawled to
    the end, however many levels are left.
  * `Assembly.crawl_terminates`: a crawl calls only what has less left than itself, so its calls do
    not go deeper than a bound; and a circle makes it fail.
-/
import ApiCensus.Proofs.Api.Descent
import ApiCensus.Proofs.Assembly.Owners
import ApiCensus.Proofs.Metadata.Columns
import Mathlib.Logic.Relation

namespace ApiCensus

open Attempt

variable {σ : Type}

namespace Assembly

/-! ## Types in a circle -/

/-- A row puts a type inside another one, which is not one that a compiler puts into every
    assembly. -/
inductive Encloses (assembly : Assembly) : Nat → Nat → Prop
  | row {rid : Nat} {row : NestedClassRow} {type : TypeDefRow}
    (row_eq : assembly.row NestedClassRow rid = .ok row)
    (type_eq : assembly.row TypeDefRow row.enclosing = .ok type)
    (visited : assembly.isEmbedded type ≠ .ok true) :
    Encloses assembly row.enclosing row.nested

section
variable {assembly : Assembly} {lookup : EnumLookup σ} {limit levels : Nat}

/-- A type that has been crawled to the end is left out, or the types inside it have been crawled
    to the end. -/
theorem nested_of_crawlTypeBy {nested : Nat → Crawling σ Unit} {type : TypeDefRow}
    {place place' : σ × KeySet}
    (h : assembly.crawlTypeBy lookup limit nested levels type place = (.ok (), place')) :
    assembly.isEmbedded type = .ok true ∨
      ∀ rid ∈ assembly.nestedTypes type.rid, ∃ s s', nested rid s = (.ok (), s') := by
  obtain ⟨embedded, _, hembedded, h⟩ := bind_eq_ok h
  cases embedded with
  | true => exact Or.inl (congrArg Prod.fst hembedded)
  | false =>
    refine Or.inr fun rid hrid => ?_
    obtain ⟨_, _, -, h⟩ := bind_eq_ok h
    obtain ⟨fields, _, -, h⟩ := bind_eq_ok h
    obtain ⟨_, _, -, h⟩ := bind_eq_ok h
    obtain ⟨methods, _, -, h⟩ := bind_eq_ok h
    obtain ⟨_, _, -, h⟩ := bind_eq_ok h
    obtain ⟨properties, _, -, h⟩ := bind_eq_ok h
    obtain ⟨_, _, -, h⟩ := bind_eq_ok h
    obtain ⟨events, _, -, h⟩ := bind_eq_ok h
    obtain ⟨_, _, -, h⟩ := bind_eq_ok h
    exact forM_brings (P := fun _ => ∃ s s', nested rid s = (.ok (), s')) hrid
      (fun _ _ _ hp => hp) (fun s s' hs => ⟨s, s', hs⟩) h

theorem Encloses.nested_ends {outer inner : Nat} (he : assembly.Encloses outer inner)
    (hindexed : assembly.Indexed) {nested : Nat → Crawling σ Unit} {type : TypeDefRow}
    (htype : assembly.row TypeDefRow outer = .ok type) {place place' : σ × KeySet}
    (h : assembly.crawlTypeBy lookup limit nested levels type place = (.ok (), place')) :
    ∃ s s', nested inner s = (.ok (), s') := by
  cases he with
  | @row _ row other hrow hother hvisited =>
    obtain rfl : other = type := Except.ok.inj (hother.symm.trans htype)
    rcases nested_of_crawlTypeBy h with hembedded | hall
    · exact absurd hembedded hvisited
    · refine hall row.nested ?_
      have hrid : other.rid = row.enclosing := RowKind.rid_of_get .typeDef htype
      rw [hrid]
      exact mem_nestedTypes hindexed hrow

theorem Encloses.exists_type {outer inner : Nat} (he : assembly.Encloses outer inner) :
    ∃ type, assembly.row TypeDefRow outer = .ok type := by
  cases he with
  | row _ htype _ => exact ⟨_, htype⟩

/-- A type in a circle is never crawled to the end. -/
theorem crawlType_ends_badly (hindexed : assembly.Indexed) {rid : Nat}
    (hcircle : Relation.TransGen assembly.Encloses rid rid) {type : TypeDefRow}
    (htype : assembly.row TypeDefRow rid = .ok type) {place place' : σ × KeySet} :
    assembly.crawlType lookup limit levels type place ≠ (.ok (), place') := by
  intro h
  -- A type of the circle that ends has the next one end before it, with a level fewer.
  induction levels generalizing rid type place place' with
  | zero =>
    obtain ⟨inner, hstep, -⟩ := Relation.TransGen.head'_iff.1 hcircle
    obtain ⟨s, s', hinner⟩ := hstep.nested_ends hindexed htype h
    exact absurd (congrArg Prod.fst hinner) (by simp)
  | succ levels ih =>
    obtain ⟨inner, hstep, hback⟩ := Relation.TransGen.head'_iff.1 hcircle
    obtain ⟨s, s', hinner⟩ := hstep.nested_ends hindexed htype h
    obtain ⟨innerType, s, hrow, hvisit⟩ := bind_eq_ok hinner
    exact ih (Relation.TransGen.tail' hback hstep) (congrArg Prod.fst hrow) hvisit

theorem crawlAll_ends_badly (hindexed : assembly.Indexed) {rid : Nat}
    (hcircle : Relation.TransGen assembly.Encloses rid rid) (place place' : σ × KeySet) :
    assembly.crawlAll lookup limit place ≠ (.ok (), place') := by
  intro h
  obtain ⟨inner, hstep, -⟩ := Relation.TransGen.head'_iff.1 hcircle
  obtain ⟨type, htype⟩ := hstep.exists_type
  obtain ⟨_, _, -, h⟩ := bind_eq_ok h
  obtain ⟨_, _, -, h⟩ := bind_eq_ok h
  obtain ⟨_, _, -, h⟩ := bind_eq_ok h
  refine forM_brings (P := fun _ => False) (Table.mem_rows htype) (fun _ _ _ hp => hp) ?_ h
  intro s s' hvisit
  exact crawlType_ends_badly hindexed hcircle htype hvisit

end

/-- **A crawl ends. Its visits call each other, and what one of them does depends on what it calls
    only where fewer levels are left, or as many and fewer bytes of a signature. There is no endless
    descent in this order, so the calls do not go deeper than a bound that follows from the limit
    and the size of the heap: whatever would be called there, the crawl is the same. Where types
    enclose each other in a circle, it ends with a fault.** -/
theorem crawl_terminates (assembly : Assembly) (lookup : EnumLookup σ) (limit : Nat) :
    assembly.visitsThrough lookup limit (assembly.visits lookup limit) =
      assembly.visits lookup limit ∧
    WellFounded Call.Below ∧
    (∀ (first second : Visits σ) (call : Call),
      (∀ smaller, smaller.Below call → first.AgreeAt second smaller) →
        (assembly.visitsThrough lookup limit first).AgreeAt
          (assembly.visitsThrough lookup limit second) call) ∧
    (∀ (calls : Visits σ) (depth : Nat), (limit + 1) * (assembly.blobs.size + 2) < depth →
      assembly.crawlThrough lookup limit ((assembly.visitsThrough lookup limit)^[depth] calls) =
        assembly.crawl lookup limit) ∧
    (assembly.Indexed → ∀ rid, Relation.TransGen assembly.Encloses rid rid →
      ∀ start, ∃ fault state, assembly.crawl lookup limit start = (.error fault, state)) := by
  refine ⟨visitsThrough_visits assembly lookup limit, Call.wellFounded_below, ?_, ?_, ?_⟩
  · intro first second call h
    -- The bytes that the call has left can be more than the heap has.
    refine visitsThrough_agree (Nat.le_max_left _ call.budget.2) ?_ fun smaller hbelow _ => ?_
    · exact Nat.le_succ_of_le (Nat.le_max_right _ _)
    · exact h smaller hbelow
  · exact fun calls depth hdepth => crawlThrough_iterate assembly lookup limit calls hdepth
  · intro hindexed rid hcircle start
    rcases hrun : assembly.crawlAll lookup limit (start, {}) with ⟨fault | _, state, keys⟩
    · exact ⟨fault, state, by simp only [crawl, hrun]⟩
    · exact absurd hrun (crawlAll_ends_badly hindexed hcircle _ _)

/-! ## An example -/

/-- Two types, each of which is inside the other one. -/
def circledRows : TableId → List (List UInt8)
  | .typeDef => List.replicate 2 [0, 0, 0, 0, 0, 0, 0, 0, 0, 0, 1, 0, 1, 0]
  | .nestedClass => [[1, 0, 2, 0], [2, 0, 1, 0]]
  | _ => []

/-- An assembly with those types. -/
def circled : Assembly :=
  (ofRows circledRows [0] [0] {}).withOwners

theorem indexed_circled : circled.Indexed :=
  indexed_withOwners (by decide +kernel)

theorem isEmbedded_circled (type : TypeDefRow) : circled.isEmbedded type = .ok false := by
  obtain ⟨rows, hrows, hattributes⟩ := attributesOf_of_indexed indexed_circled
  obtain rfl : [] = rows := Except.ok.inj hrows
  rw [isEmbedded, hattributes]
  rfl

theorem encloses_circled : circled.Encloses 1 2 ∧ circled.Encloses 2 1 := by
  have hvisited : ∀ type, circled.isEmbedded type ≠ .ok true := by
    intro type
    rw [isEmbedded_circled]
    simp
  obtain ⟨first, hfirst⟩ : ∃ type, circled.row TypeDefRow 1 = .ok type :=
    exists_ok_of_isOk (by decide +kernel)
  obtain ⟨second, hsecond⟩ : ∃ type, circled.row TypeDefRow 2 = .ok type :=
    exists_ok_of_isOk (by decide +kernel)
  have hinner : circled.row NestedClassRow 2 = .ok ⟨2, 2, 1⟩ := rfl
  have houter : circled.row NestedClassRow 1 = .ok ⟨1, 1, 2⟩ := rfl
  exact ⟨.row hinner hfirst (hvisited first), .row houter hsecond (hvisited second)⟩

/-- Visits that fail. -/
def stuck : Visits Unit where
  entity _ _ := throw (.tooDeep 0)
  element _ _ := throw (.tooDeep 0)
  type _ _ := throw (.tooDeep 0)

theorem crawl_terminates_circled :
    (∀ limit, ∃ fault,
        circled.crawl (EnumLookup.none (σ := Unit)) limit () = (.error fault, ())) ∧
      circled.crawlThrough (EnumLookup.none (σ := Unit)) 1
          ((circled.visitsThrough (EnumLookup.none (σ := Unit)) 1)^[7] stuck) =
        circled.crawl (EnumLookup.none (σ := Unit)) 1 ∧
      (circled.visitsThrough (EnumLookup.none (σ := Unit)) 1 stuck).AgreeAt
        (circled.visitsThrough (EnumLookup.none (σ := Unit)) 1
          (circled.visits (EnumLookup.none (σ := Unit)) 1)) (.entity 0) := by
  obtain ⟨hinto, hback⟩ := encloses_circled
  have hcircle : Relation.TransGen circled.Encloses 1 1 := .tail (.single hinto) hback
  refine ⟨fun limit => ?_, ?_, ?_⟩
  · obtain ⟨-, -, -, -, hfails⟩ := crawl_terminates circled (EnumLookup.none (σ := Unit)) limit
    obtain ⟨fault, ⟨⟩, hfault⟩ := hfails indexed_circled 1 hcircle ()
    exact ⟨fault, hfault⟩
  · obtain ⟨-, -, -, hdepth, -⟩ := crawl_terminates circled (EnumLookup.none (σ := Unit)) 1
    exact hdepth stuck 7 (by decide +kernel)
  · obtain ⟨-, -, hbelow, -, -⟩ := crawl_terminates circled (EnumLookup.none (σ := Unit)) 1
    refine hbelow _ _ _ fun smaller hsmaller => ?_
    rcases Prod.lex_def.1 hsmaller with h | ⟨-, h⟩
    · exact absurd h (Nat.not_lt_zero _)
    · exact absurd h (Nat.not_lt_zero _)

end Assembly

end ApiCensus
