/-
  The key of a type is split into the namespace and the name that it was made of.

  * `ApiKey.stem`: what stands before the generic arguments of a text.
  * `ApiKey.splitName_eq_iff`: all that splitting can answer.
  * `ApiKey.splitName_qualify_iff`: a name behind its namespace is split back just if neither
    generic arguments nor a point make it end elsewhere.
  * `ApiKey.splitTypeName_typeRefId`: so it is with the documentation ID of a type of another
    assembly.
-/
import ApiCensus.Api.Key
import ApiCensus.Assembly.Naming
import ApiCensus.Proofs.Assembly.Owners
import ApiCensus.Proofs.Attempt
import ApiCensus.Proofs.Attribute.EnumName
import ApiCensus.Proofs.Text.Fields

namespace ApiCensus

namespace ApiKey

variable {text nameSpace name front : List Char}

/-- What stands before the generic arguments. -/
def stem (text : List Char) : List Char :=
  text.takeWhile (· != '\x7b')

theorem brace_not_mem_stem (text : List Char) : '\x7b' ∉ stem text := fun h => by
  simpa using List.mem_takeWhile_imp h

theorem stem_append (h : '\x7b' ∉ front) (back : List Char) :
    stem (front ++ back) = front ++ stem back :=
  List.takeWhile_append_of_pos fun c hc => by
    simpa using fun hbrace : c = '\x7b' => h (hbrace ▸ hc)

theorem stem_append_point (h : '\x7b' ∉ front) (back : List Char) :
    stem (front ++ '.' :: back) = front ++ '.' :: stem back := by
  rw [stem_append h]
  rfl

theorem stem_append_drop (text : List Char) : stem text ++ text.drop (stem text).length = text :=
  List.prefix_iff_eq_append.1 (List.takeWhile_prefix _)

/-- The two parts stand around the last point of the stem. If the stem has no point, all of the
    text is the name. -/
theorem splitName_eq_iff : splitName text = (nameSpace, name) ↔
    (text = nameSpace ++ '.' :: name ∧ '\x7b' ∉ nameSpace ∧ '.' ∉ stem name) ∨
      (nameSpace = [] ∧ name = text ∧ '.' ∉ stem text) := by
  constructor
  · intro h
    rw [splitName] at h
    split at h
    · next front back hlast =>
      obtain ⟨hparts, hback⟩ := Split.atLast?_eq_some_iff.1 hlast
      obtain ⟨rfl, hname⟩ := Prod.mk.inj h
      have hbrace : '\x7b' ∉ front := fun hmem => brace_not_mem_stem text (by
        rw [stem, hparts]
        exact List.mem_append_left _ hmem)
      have htext : text = front ++ '.' :: name := by
        rw [← hname, ← List.cons_append, ← List.append_assoc, ← hparts]
        exact (stem_append_drop text).symm
      have hstems : front ++ '.' :: back = front ++ '.' :: stem name := by
        rw [← stem_append_point hbrace, ← htext, stem, hparts]
      obtain rfl : back = stem name := (List.cons.inj (List.append_cancel_left hstems)).2
      exact .inl ⟨htext, hbrace, hback⟩
    · next hnone =>
      obtain ⟨rfl, rfl⟩ := Prod.mk.inj h
      exact .inr ⟨rfl, rfl, Split.atLast?_eq_none_iff.1 hnone⟩
  · rintro (⟨rfl, hbrace, hpoint⟩ | ⟨rfl, rfl, hpoint⟩)
    · have hlast : Split.atLast? '.' (stem (nameSpace ++ '.' :: name)) =
          some (nameSpace, stem name) :=
        Split.atLast?_eq_some_iff.2 ⟨stem_append_point hbrace name, hpoint⟩
      have hrest : (nameSpace ++ '.' :: name).drop (stem (nameSpace ++ '.' :: name)).length =
          name.drop (stem name).length := by
        rw [stem_append_point hbrace, List.length_append, ← List.drop_drop, List.drop_left]
        rfl
      rw [stem] at hlast hrest
      simp only [splitName, hlast, hrest, stem_append_drop]
    · have hnone := Split.atLast?_eq_none_iff.2 hpoint
      rw [stem] at hnone
      simp only [splitName, hnone]

/-- A name is split from its namespace again just if no generic arguments start in the namespace,
    and the name has no point before its own. -/
theorem splitName_qualify_iff {nameSpace name : String} :
    splitName (qualify nameSpace name).toList = (nameSpace.toList, name.toList) ↔
      '\x7b' ∉ nameSpace.toList ∧ '.' ∉ stem name.toList := by
  rw [splitName_eq_iff, EnumName.toList_qualify]
  by_cases hempty : nameSpace = ""
  · subst hempty
    simp
  · have hne : nameSpace.toList ≠ [] := fun hnil => hempty (String.toList_eq_nil_iff.1 hnil)
    simp [hempty, hne]

/-- The key of a type is split as the text behind its mark is. -/
theorem splitTypeName_marked {text nameSpace name : String}
    (h : splitName text.toList = (nameSpace.toList, name.toList)) :
    splitTypeName ⟨"T:" ++ text⟩ = some (nameSpace, name) := by
  have hmarked : marked? ⟨"T:" ++ text⟩ = some (.type, text.toList) := by
    simp only [marked?, String.toList_append]
    rfl
  simp only [splitTypeName, hmarked, h, String.ofList_toList]

end ApiKey

theorem replaceChar_eq_self {old : Char} {text : String} (h : old ∉ text.toList) (new : Char) :
    replaceChar old new text = text := by
  have hkept : ∀ c ∈ text.toList, (if c = old then new else c) = id c := fun c hc =>
    if_neg fun hold : c = old => h (hold ▸ hc)
  rw [← String.toList_inj, replaceChar, String.toList_map, List.map_congr_left hkept, List.map_id]

namespace Assembly

variable {assembly : Assembly} {type : TypeRefRow} {nameSpace name : String}

/-- The documentation ID of a type that another assembly holds at the outermost level. -/
theorem typeRefId_eq (hscope : type.scope.table = .assemblyRef)
    (hname : assembly.text type.name = .ok name)
    (hspace : assembly.text type.nameSpace = .ok nameSpace) :
    assembly.typeRefId type =
      .ok (some ("T:" ++ qualify nameSpace (replaceChar '+' '.' name))) := by
  rw [typeRefId, typeRefName, hscope]
  simp only [outerName, hname, hspace]
  rfl

/-- **The documentation ID of a type that another assembly holds at the outermost level is split
    into the namespace and the name that the type has, as long as no generic arguments start in
    them and the name has no point and no plus sign. The namespace may be empty or have any number
    of parts.** -/
theorem splitTypeName_typeRefId (hscope : type.scope.table = .assemblyRef)
    (hname : assembly.text type.name = .ok name)
    (hspace : assembly.text type.nameSpace = .ok nameSpace)
    (hbrace : '\x7b' ∉ nameSpace.toList)
    (hplain : ∀ c ∈ name.toList, c ≠ '.' ∧ c ≠ '+' ∧ c ≠ '\x7b') :
    ∃ id, assembly.typeRefId type = .ok (some id) ∧
      ApiKey.splitTypeName ⟨id⟩ = some (nameSpace, name) := by
  have hkept : replaceChar '+' '.' name = name :=
    replaceChar_eq_self (fun hplus => (hplain _ hplus).2.1 rfl) '.'
  have hpoint : '.' ∉ ApiKey.stem name.toList := fun hmem =>
    (hplain _ ((List.takeWhile_prefix _).subset hmem)).1 rfl
  refine ⟨_, typeRefId_eq hscope hname hspace, ?_⟩
  rw [hkept]
  exact ApiKey.splitTypeName_marked (ApiKey.splitName_qualify_iff.2 ⟨hbrace, hpoint⟩)

/-- An assembly with nothing but a namespace of three parts and the name of a generic type in its
    string heap. -/
def listed : Assembly :=
  .ofRows (fun _ => []) "\x00System.Collections.Generic\x00List\x601\x00".toUTF8.data.toList [] {}

/-- A type of another assembly with that name, in a namespace of the string heap. -/
def listType (nameSpace : Nat) : TypeRefRow where
  rid := 1
  scope := ⟨.assemblyRef, 1⟩
  name := 28
  nameSpace

theorem splitTypeName_listType :
    (∃ id, listed.typeRefId (listType 1) = .ok (some id) ∧
      ApiKey.splitTypeName ⟨id⟩ = some ("System.Collections.Generic", "List\x601")) ∧
    ∃ id, listed.typeRefId (listType 0) = .ok (some id) ∧
      ApiKey.splitTypeName ⟨id⟩ = some ("", "List\x601") := by
  have hname : listed.text 28 = .ok "List\x601" := eq_ok_of_toOption (by decide +kernel)
  have hspace : listed.text 1 = .ok "System.Collections.Generic" :=
    eq_ok_of_toOption (by decide +kernel)
  have hletters :
      ("List\x601".toList.all fun c => c != '.' && (c != '+' && c != '\x7b')) = true := by
    decide +kernel
  have hplain : ∀ c ∈ "List\x601".toList, c ≠ '.' ∧ c ≠ '+' ∧ c ≠ '\x7b' := fun c hc => by
    simpa using List.all_eq_true.1 hletters c hc
  exact ⟨splitTypeName_typeRefId rfl hname hspace (by decide +kernel) hplain,
    splitTypeName_typeRefId rfl hname rfl (by decide +kernel) hplain⟩

end Assembly

end ApiCensus
