/-
  What is read in the name of an enum.

  * `EnumName.nesting?_eq_some_iff`, `EnumName.splitNamespace_eq_iff`: the parts of the name of a
    type, and how they stand in it.
  * `EnumName.Spelled`: a text, taken apart as the name of an enum; `EnumName.parse?_eq_some_iff`:
    these are the texts that are read.
  * `EnumName.fullName_eq_typeText_iff`: the name of the type is the text in front of the first
    comma, without the blanks around it. Only a point in front of a name without a namespace gets
    lost.
-/
import ApiCensus.Attribute.EnumLookup
import ApiCensus.Proofs.Text.Fields

namespace ApiCensus.EnumName

/-! ## The parts of a type -/

section
variable {type outer nameSpace name : List Char} {nested : Option (List Char)}

/-- What stands behind the outermost type. -/
def nestedPart (nested : Option (List Char)) : List Char :=
  nested.elim [] ('+' :: ·)

theorem nesting?_eq_some_iff :
    nesting? type = some (outer, nested) ↔
      type = outer ++ nestedPart nested ∧ '+' ∉ outer ∧
        ∀ inner, nested = some inner → '+' ∉ inner ∧ inner ≠ [] := by
  rw [nesting?]
  constructor
  · intro h
    split at h
    · next hfields =>
      cases h
      obtain ⟨htype, hmark, -⟩ := Split.fields_eq_iff.1 hfields
      exact ⟨by simpa [nestedPart] using htype, hmark _ List.mem_cons_self, by simp⟩
    · next inner hfields =>
      obtain ⟨hne, h⟩ := Option.ite_none_left_eq_some.1 h
      cases h
      obtain ⟨htype, hmark, -⟩ := Split.fields_eq_iff.1 hfields
      refine ⟨by simpa [nestedPart, List.intercalate_cons_cons] using htype,
        hmark _ List.mem_cons_self, ?_⟩
      rintro _ ⟨⟩
      exact ⟨hmark inner (by simp), by simpa using hne⟩
    · cases h
  · rintro ⟨rfl, houter, hnested⟩
    cases nested with
    | none =>
      simp [nestedPart, Split.fields_of_not_mem houter]
    | some inner =>
      obtain ⟨hinner, hne⟩ := hnested inner rfl
      have hfields : Split.fields '+' (outer ++ '+' :: inner) = [outer, inner] :=
        Split.fields_eq_iff.2
          ⟨by simp [List.intercalate_cons_cons], by simp [houter, hinner], List.cons_ne_nil _ _⟩
      simp [nestedPart, hfields, hne]

theorem splitNamespace_eq_iff :
    splitNamespace type = (nameSpace, name) ↔
      '.' ∉ name ∧ (type = nameSpace ++ '.' :: name ∨ nameSpace = [] ∧ type = name) := by
  rw [splitNamespace]
  cases hcut : Split.atLast? '.' type with
  | none =>
    have hpoint := Split.atLast?_eq_none_iff.1 hcut
    rw [Option.getD_none, Prod.mk.injEq]
    constructor
    · rintro ⟨rfl, rfl⟩
      exact ⟨hpoint, Or.inr ⟨rfl, rfl⟩⟩
    · rintro ⟨-, rfl | ⟨rfl, rfl⟩⟩
      · exact absurd (by simp) hpoint
      · exact ⟨rfl, rfl⟩
  | some parts =>
    obtain ⟨before, behind⟩ := parts
    have htype := Split.atLast?_eq_some_iff.1 hcut
    rw [Option.getD_some, Prod.mk.injEq]
    constructor
    · rintro ⟨rfl, rfl⟩
      exact ⟨htype.2, Or.inl htype.1⟩
    · rintro ⟨hname, htype' | ⟨-, rfl⟩⟩
      · have hcut' := Split.atLast?_eq_some_iff.2 ⟨htype', hname⟩
        rw [hcut] at hcut'
        exact Prod.mk.inj (Option.some.inj hcut')
      · exact absurd (by rw [htype.1]; simp) hname

end

/-! ## The whole text -/

/-- A text, taken apart as the name of an enum: the type in front of the first comma, and behind
    it the assembly and the properties of the assembly. -/
structure Spelled (text : String) (name : EnumName) (front behind outer : List Char)
    (properties : List (List Char)) : Prop where
  cut : Split.atFirst? ',' text.toList = some (front, behind)
  plain : ∀ c ∈ Blank.trim front, isForbidden c = false
  nesting : nesting? (Blank.trim front) = some (outer, name.nested.map String.toList)
  type : splitNamespace outer = (name.nameSpace.toList, name.name.toList)
  named : name.name ≠ ""
  parts : (Split.fields ',' behind).map Blank.trim = name.assembly.toList :: properties
  assembled : name.assembly ≠ ""
  found : properties.foldl Properties.add {} =
    { culture := name.culture, keyToken := name.keyToken }

theorem isEmpty_of_nesting? {outer : List Char} {nested : Option (List Char)}
    (h : nesting? [] = some (outer, nested)) : outer = [] := by
  have hparts := (nesting?_eq_some_iff.1 h).1
  exact (List.append_eq_nil_iff.1 hparts.symm).1

/-- The texts that are read as the name of an enum. -/
theorem parse?_eq_some_iff {text : String} {name : EnumName} :
    parse? text = some name ↔ ∃ front behind outer properties,
      Spelled text name front behind outer properties := by
  constructor
  · intro h
    obtain ⟨⟨front, behind⟩, hcut, h⟩ := Option.bind_eq_some_iff.1 h
    obtain ⟨hplain, h⟩ := Option.ite_none_left_eq_some.1 h
    rw [Bool.or_eq_true, not_or] at hplain
    obtain ⟨⟨outer, nested⟩, hnesting, h⟩ := Option.bind_eq_some_iff.1 h
    rcases htype : splitNamespace outer with ⟨nameSpace, simple⟩
    dsimp only at h
    rw [htype] at h
    obtain ⟨hnamed, h⟩ := Option.ite_none_left_eq_some.1 h
    split at h
    · cases h
    next assembly properties hparts =>
    obtain ⟨hassembled, h⟩ := Option.ite_none_left_eq_some.1 h
    cases h
    refine ⟨front, behind, outer, properties, hcut, by simpa using hplain.2, ?_, by simp [htype],
      by simpa using hnamed, ?_, by simpa using hassembled, rfl⟩
    · rw [hnesting]
      cases nested <;> simp
    · rw [hparts, String.toList_ofList]
  · rintro ⟨front, behind, outer, properties, h⟩
    have hcons : Blank.trim front ≠ [] := by
      intro hempty
      have hnesting := h.nesting
      rw [hempty] at hnesting
      have htype := h.type
      rw [isEmpty_of_nesting? hnesting] at htype
      have hname : [] = name.name.toList := (Prod.mk.inj htype).2
      exact h.named (by simpa using hname.symm)
    have hname : name.name.toList ≠ [] := by simpa using h.named
    have hassembly : name.assembly.toList ≠ [] := by simpa using h.assembled
    rw [parse?, h.cut]
    simpa [hcons, h.nesting, h.type, hname, h.parts, hassembly, h.found] using h.plain

/-! ## The name of the type -/

/-- The text in front of the first comma, without the blanks around it. -/
def typeText (text : String) : List Char :=
  Blank.trim (text.toList.takeWhile (· != ','))

/-- The outermost type has a point in front of its name and no other one. -/
def HasLonePoint (type : List Char) : Prop :=
  ∃ name, type.takeWhile (· != '+') = '.' :: name ∧ '.' ∉ name

theorem takeWhile_ne_of_not_mem {mark : Char} {front back : List Char} (h : mark ∉ front)
    (hback : ∀ c ∈ back.head?, c = mark) : (front ++ back).takeWhile (· != mark) = front := by
  have hfront : ∀ c ∈ front, (c != mark) = true := by
    intro c hc
    simpa using ne_of_mem_of_not_mem hc h
  rw [List.takeWhile_append_of_pos hfront]
  cases back with
  | nil => simp
  | cons c rest => simp [hback c rfl]

section
variable {text : String} {name : EnumName} {front behind outer : List Char}
  {properties : List (List Char)}

theorem Spelled.typeText_eq (h : Spelled text name front behind outer properties) :
    typeText text = outer ++ nestedPart (name.nested.map String.toList) := by
  obtain ⟨htext, hcomma⟩ := Split.atFirst?_eq_some_iff.1 h.cut
  rw [typeText, htext, takeWhile_ne_of_not_mem hcomma (by simp)]
  exact (nesting?_eq_some_iff.1 h.nesting).1

theorem Spelled.outer_eq (h : Spelled text name front behind outer properties) :
    (typeText text).takeWhile (· != '+') = outer := by
  rw [h.typeText_eq, takeWhile_ne_of_not_mem (nesting?_eq_some_iff.1 h.nesting).2.1]
  cases name.nested <;> simp [nestedPart]

theorem toList_qualify (nameSpace name : String) :
    (qualify nameSpace name).toList =
      if nameSpace = "" then name.toList else nameSpace.toList ++ '.' :: name.toList := by
  by_cases h : nameSpace = ""
  · simp [qualify, h]
  · simp [qualify, h]

theorem toList_fullName (name : EnumName) :
    name.fullName.toList =
      (qualify name.nameSpace name.name).toList ++ nestedPart (name.nested.map String.toList) := by
  rw [fullName, String.toList_append]
  cases name.nested <;> simp [nestedPart]

theorem Spelled.hasLonePoint_iff (h : Spelled text name front behind outer properties) :
    HasLonePoint (typeText text) ↔ ∃ name, outer = '.' :: name ∧ '.' ∉ name := by
  rw [HasLonePoint, h.outer_eq]

/-- The namespace and the name make up the outermost type, unless it has a lone point. -/
theorem Spelled.qualify_cases (h : Spelled text name front behind outer properties) :
    (qualify name.nameSpace name.name).toList = outer ∧ ¬ HasLonePoint (typeText text) ∨
      '.' :: (qualify name.nameSpace name.name).toList = outer ∧ HasLonePoint (typeText text) := by
  rw [h.hasLonePoint_iff, toList_qualify]
  obtain ⟨hname, houter | ⟨hempty, houter⟩⟩ := splitNamespace_eq_iff.1 h.type
  · by_cases hempty : name.nameSpace = ""
    · rw [if_pos hempty]
      rw [hempty, String.toList_empty, List.nil_append] at houter
      exact Or.inr ⟨houter.symm, name.name.toList, houter, hname⟩
    · rw [if_neg hempty]
      refine Or.inl ⟨houter.symm, ?_⟩
      rintro ⟨simple, hlone, hsimple⟩
      obtain ⟨c, rest, hspace⟩ := List.exists_cons_of_ne_nil (String.toList_eq_nil_iff.not.2 hempty)
      rw [houter, hspace, List.cons_append] at hlone
      obtain ⟨-, rfl⟩ := List.cons.inj hlone
      exact hsimple (by simp)
  · rw [if_pos (String.toList_eq_nil_iff.1 hempty)]
    refine Or.inl ⟨houter.symm, ?_⟩
    rintro ⟨simple, hlone, -⟩
    exact hname (by rw [← houter, hlone]; exact List.mem_cons_self)

end

/-- **The name of the type is the text in front of the first comma, without the blanks around it,
    just if the outermost type does not consist of a point and a name; else the point is
    missing.** -/
theorem fullName_eq_typeText_iff {text : String} {name : EnumName} (h : parse? text = some name) :
    (name.fullName.toList = typeText text ↔ ¬ HasLonePoint (typeText text)) ∧
      (HasLonePoint (typeText text) → '.' :: name.fullName.toList = typeText text) := by
  obtain ⟨front, behind, outer, properties, hspelled⟩ := parse?_eq_some_iff.1 h
  rw [toList_fullName]
  rcases hspelled.qualify_cases with ⟨houter, hlone⟩ | ⟨houter, hlone⟩
  · have heq : (qualify name.nameSpace name.name).toList ++
        nestedPart (name.nested.map String.toList) = typeText text := by
      rw [hspelled.typeText_eq, houter]
    exact ⟨⟨fun _ => hlone, fun _ => heq⟩, fun hpoint => absurd hpoint hlone⟩
  · have heq : '.' :: ((qualify name.nameSpace name.name).toList ++
        nestedPart (name.nested.map String.toList)) = typeText text := by
      rw [hspelled.typeText_eq, ← houter]
      rfl
    refine ⟨⟨fun hsame => ?_, fun hnot => absurd hlone hnot⟩, fun _ => heq⟩
    rw [hsame] at heq
    exact absurd heq (List.cons_ne_self _ _)

/-- An enum inside a type of which the namespace ends with a point. -/
def dotted : EnumName where
  assembly := "Lib"
  culture := some "de"
  keyToken := none
  nameSpace := "A."
  name := "B"
  nested := some "C.D"

theorem fullName_dotted :
    parse? " A..B+C.D , Lib, Culture = de" = some dotted ∧
      ¬ HasLonePoint (typeText " A..B+C.D , Lib, Culture = de") ∧
      dotted.fullName.toList = typeText " A..B+C.D , Lib, Culture = de" := by
  have hread : parse? " A..B+C.D , Lib, Culture = de" = some dotted := by decide
  have hlone : ¬ HasLonePoint (typeText " A..B+C.D , Lib, Culture = de") := by
    have houter : (typeText " A..B+C.D , Lib, Culture = de").takeWhile (· != '+') =
        ['A', '.', '.', 'B'] := by decide
    rintro ⟨name, hname, -⟩
    rw [houter] at hname
    cases hname
  exact ⟨hread, hlone, (fullName_eq_typeText_iff hread).1.2 hlone⟩

/-- An enum without a namespace. -/
def color : EnumName where
  assembly := "Lib"
  culture := none
  keyToken := none
  nameSpace := ""
  name := "Color"
  nested := none

/-- The point in front of a name gets lost, and an enum of that name is not found. -/
theorem fullName_color :
    parse? ".Color, Lib" = some color ∧ typeText ".Color, Lib" = ".Color".toList ∧
      color.fullName = "Color" ∧
      (EnumLookup.ofTable [{ assembly := "Lib", name := ".Color", type := .int32 }] color ()).1 =
        none := by
  decide

end ApiCensus.EnumName
