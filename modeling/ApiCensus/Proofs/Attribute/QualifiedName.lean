/-
  Enums that are named by their qualified name.

  * `Hex.Spells`: a text spells bytes, two digits for each; `EnumName.keyToken?_of_spells`: the
    token of a public key is read from the text that spells it.
  * `EnumName.Separable`: the parts of a name can be told apart when they are put together.
  * `EnumName.parse?_qualified`: a separable name is read from its qualified name, and asked for
    alike where that text stands in a value and where a signature refers to the type.
-/
import ApiCensus.Proofs.Assembly.Owners
import ApiCensus.Proofs.Attribute.EnumName
import ApiCensus.Proofs.Attribute.Reading

namespace ApiCensus

/-! ## Spelled bytes -/

namespace Hex

/-- The text spells the bytes: two digits of either case for each of them. -/
inductive Spells : List Char → List UInt8 → Prop where
  | nil : Spells [] []
  | cons {high low : Char} {m n : Nat} {byte : UInt8} {text : List Char} {bytes : List UInt8} :
      digit? high = some m → digit? low = some n → byte.toNat = m * 16 + n → Spells text bytes →
        Spells (high :: low :: text) (byte :: bytes)

variable {c : Char} {n : Nat} {text : List Char} {bytes : List UInt8}

/-- The values of a decimal digit and of the letters of either case. -/
theorem digit?_cases (h : digit? c = some n) :
    (48 ≤ c.toNat ∧ c.toNat ≤ 57) ∧ n + 48 = c.toNat ∨
      (97 ≤ c.toNat ∧ c.toNat ≤ 102) ∧ n + 87 = c.toNat ∨
        (65 ≤ c.toNat ∧ c.toNat ≤ 70) ∧ n + 55 = c.toNat := by
  have hrange : ∀ {first last : Char}, first ≤ c ∧ c ≤ last →
      first.toNat ≤ c.toNat ∧ c.toNat ≤ last.toNat := fun h => h
  have hfirst : '0'.toNat = 48 ∧ 'a'.toNat = 97 ∧ 'A'.toNat = 65 := by decide
  have hlast : '9'.toNat = 57 ∧ 'f'.toNat = 102 ∧ 'F'.toNat = 70 := by decide
  rw [digit?] at h
  split at h
  · next hdigit =>
    obtain rfl := Option.some.inj h
    have hbounds := hrange hdigit
    omega
  split at h
  · next hlower =>
    obtain rfl := Option.some.inj h
    have hbounds := hrange hlower
    omega
  split at h
  · next hupper =>
    obtain rfl := Option.some.inj h
    have hbounds := hrange hupper
    omega
  · cases h

theorem lt_of_digit? (h : digit? c = some n) : n < 16 := by
  have hcases := digit?_cases h
  omega

theorem isBlank_of_digit? (h : digit? c = some n) : Blank.isBlank c = false := by
  have hcases := digit?_cases h
  simp only [Blank.isBlank, Blank.ranges, List.any_cons, List.any_nil, Bool.or_false,
    Bool.or_eq_false_iff, Bool.and_eq_false_iff, decide_eq_false_iff_not]
  omega

theorem Spells.length_eq (h : Spells text bytes) : text.length = 2 * bytes.length := by
  induction h with
  | nil => rfl
  | cons _ _ _ _ ih =>
    rw [List.length_cons, List.length_cons, List.length_cons, ih]
    omega

theorem Spells.exists_digit (h : Spells text bytes) : ∀ c ∈ text, ∃ n, digit? c = some n := by
  induction h with
  | nil => simp
  | cons hhigh hlow _ _ ih =>
    simp only [List.forall_mem_cons]
    exact ⟨⟨_, hhigh⟩, ⟨_, hlow⟩, ih⟩

end Hex

namespace EnumName

open Hex

theorem keyByte?_digits {high low : Char} {m n : Nat} {byte : UInt8}
    (hhigh : digit? high = some m) (hlow : digit? low = some n)
    (hbyte : byte.toNat = m * 16 + n) : keyByte? high low = some byte := by
  have hplus : high ≠ '+' := by
    rintro rfl
    cases hhigh
  have hm := lt_of_digit? hhigh
  have hn := lt_of_digit? hlow
  have hvalue : Numeral.value? digit? 16 [high, low] = some (m * 16 + n) := by
    simp [Numeral.value?, hhigh, hlow]
  rw [keyByte?, Numeral.unsigned?, hvalue, Option.filter_some, if_pos (by simp; omega), ← hbyte,
    Option.map_some, UInt8.ofNat_toNat]
  · simpa using hplus
  · exact List.cons_ne_nil _ _

theorem keyBytes?_of_spells {text : List Char} {bytes : List UInt8} (h : Spells text bytes) :
    keyBytes? text = some bytes := by
  induction h with
  | nil => rfl
  | cons hhigh hlow hbyte _ ih =>
    rw [keyBytes?, keyByte?_digits hhigh hlow hbyte, ih]
    rfl

/-- The text spells the token of a public key. -/
def SpellsToken (text : String) (token : List UInt8) : Prop :=
  Spells text.toList token ∧ token.length = keyTokenSize

theorem keyToken?_of_spells {text : String} {token : List UInt8} (h : SpellsToken text token) :
    keyToken? text.toList = some token := by
  have hlength : text.toList.length = 16 := by
    rw [h.1.length_eq, h.2]
    rfl
  rw [keyToken?, if_pos hlength, keyBytes?_of_spells h.1]

/-! ## Qualified names -/

/-- A character that ends a part of a qualified name, or that no name of a plain type has. -/
def isReserved (c : Char) : Bool :=
  Blank.isBlank c || isForbidden c || c == ',' || c == '+'

/-- The parts of a name that are there. -/
def parts (name : EnumName) : List String :=
  [name.assembly, name.nameSpace, name.name] ++ name.culture.toList ++ name.nested.toList

/-- The parts can be told apart when they are put together, and a culture is not mistaken for the
    neutral one. -/
structure Separable (name : EnumName) : Prop where
  plain : ∀ part ∈ name.parts, ∀ c ∈ part.toList, isReserved c = false
  assembled : name.assembly ≠ ""
  named : name.name ≠ ""
  simple : '.' ∉ name.name.toList
  nested : name.nested ≠ some ""
  foreign : ∀ culture ∈ name.culture,
    equalsIgnoringCase culture.toList "neutral".toList = false

/-- What is said of the assembly; `key` is the text of the token of its public key. -/
def statedProperties (name : EnumName) (key : Option String) : List String :=
  "Version=1.0.0.0" ::
    (name.culture.toList.map ("Culture=" ++ ·) ++ key.toList.map ("PublicKeyToken=" ++ ·))

/-- The name with the assembly and what is said of it. -/
def qualified (name : EnumName) (key : Option String) : String :=
  ", ".intercalate (name.fullName :: name.assembly :: name.statedProperties key)

section
variable {c : Char} {name : EnumName} {key : Option String} {text other : List Char}

/-! ## Text without blanks and commas -/

theorem isReserved_eq_false_iff : isReserved c = false ↔
    (Blank.isBlank c = false ∧ c ≠ ',') ∧ isForbidden c = false ∧ c ≠ '+' := by
  simp only [isReserved, Bool.or_eq_false_iff, beq_eq_false_iff_ne]
  tauto

/-- There is neither a blank nor a comma in the text. -/
def IsSolid (text : List Char) : Prop :=
  ∀ c ∈ text, Blank.isBlank c = false ∧ c ≠ ','

theorem isSolid_of_all (h : text.all (fun c => !Blank.isBlank c && c != ',') = true) :
    IsSolid text := by
  intro c hc
  simpa using List.all_eq_true.1 h c hc

theorem IsSolid.append (htext : IsSolid text) (hother : IsSolid other) :
    IsSolid (text ++ other) :=
  fun c hc => (List.mem_append.1 hc).elim (htext c) (hother c)

theorem IsSolid.isTrimmed (h : IsSolid text) : Blank.IsTrimmed text :=
  Blank.isTrimmed_of_forall fun c hc => (h c hc).1

theorem IsSolid.not_mem (h : IsSolid text) : ',' ∉ text :=
  fun hc => (h ',' hc).2 rfl

theorem IsSolid.of_plain (h : ∀ c ∈ text, isReserved c = false) : IsSolid text :=
  fun c hc => (isReserved_eq_false_iff.1 (h c hc)).1

theorem IsSolid.of_spells {bytes : List UInt8} (h : Spells text bytes) : IsSolid text := by
  intro c hc
  obtain ⟨n, hdigit⟩ := h.exists_digit c hc
  refine ⟨isBlank_of_digit? hdigit, ?_⟩
  rintro rfl
  cases hdigit

theorem IsSolid.trim_cons (h : IsSolid text) : Blank.trim (' ' :: text) = text := by
  have hdrop : Blank.trim (' ' :: text) = Blank.trim text := by
    simp [Blank.trim, Blank.trimBy, (by decide : Blank.isBlank ' ' = true)]
  rw [hdrop, Blank.trim_eq_self h.isTrimmed]

/-! ## The type -/

theorem not_mem_of_plain (h : ∀ c ∈ text, isReserved c = false) : '+' ∉ text :=
  fun hc => (isReserved_eq_false_iff.1 (h '+' hc)).2.2 rfl

theorem Separable.plain_nested (h : name.Separable) {inner : String}
    (hinner : name.nested = some inner) : ∀ c ∈ inner.toList, isReserved c = false :=
  h.plain inner (by simp [parts, hinner])

theorem Separable.plain_qualify (h : name.Separable) :
    ∀ c ∈ (qualify name.nameSpace name.name).toList, isReserved c = false := by
  have hname : ∀ c ∈ name.name.toList, isReserved c = false := h.plain _ (by simp [parts])
  have hspace : ∀ c ∈ name.nameSpace.toList, isReserved c = false := h.plain _ (by simp [parts])
  have hpoint : isReserved '.' = false := by decide
  intro c hc
  rw [toList_qualify] at hc
  split at hc
  · exact hname c hc
  rcases List.mem_append.1 hc with hc | hc
  · exact hspace c hc
  rcases List.mem_cons.1 hc with rfl | hc
  · exact hpoint
  · exact hname c hc

theorem Separable.plain_fullName (h : name.Separable) :
    ∀ c ∈ name.fullName.toList, isReserved c = false ∨ c = '+' := by
  intro c hc
  rw [toList_fullName, List.mem_append] at hc
  rcases hc with hc | hc
  · exact Or.inl (h.plain_qualify c hc)
  cases hnested : name.nested with
  | none => simp [hnested, nestedPart] at hc
  | some inner =>
    rw [hnested] at hc
    rcases List.mem_cons.1 hc with rfl | hc
    · exact Or.inr rfl
    · exact Or.inl (h.plain_nested hnested c hc)

theorem Separable.isSolid_fullName (h : name.Separable) : IsSolid name.fullName.toList := by
  intro c hc
  rcases h.plain_fullName c hc with hplain | rfl
  · exact (isReserved_eq_false_iff.1 hplain).1
  · decide

theorem Separable.nesting?_fullName (h : name.Separable) :
    nesting? name.fullName.toList =
      some ((qualify name.nameSpace name.name).toList, name.nested.map String.toList) := by
  rw [nesting?_eq_some_iff, toList_fullName]
  refine ⟨rfl, not_mem_of_plain h.plain_qualify, ?_⟩
  intro inner hinner
  obtain ⟨text, hnested, rfl⟩ := Option.map_eq_some_iff.1 hinner
  refine ⟨not_mem_of_plain (h.plain_nested hnested), fun hempty => h.nested ?_⟩
  rw [hnested, String.toList_eq_nil_iff.1 hempty]

theorem Separable.splitNamespace_qualify (h : name.Separable) :
    splitNamespace (qualify name.nameSpace name.name).toList =
      (name.nameSpace.toList, name.name.toList) := by
  rw [splitNamespace_eq_iff, toList_qualify]
  refine ⟨h.simple, ?_⟩
  by_cases hempty : name.nameSpace = ""
  · simp [hempty]
  · simp [hempty]

/-! ## The properties -/

section
variable (properties : Properties)

theorem add_stated {key value : List Char} (hmark : '=' ∉ key) (hkey : IsSolid key)
    (hvalue : IsSolid value) :
    properties.add (key ++ '=' :: value) =
      if key = "Culture".toList then
        if equalsIgnoringCase value "neutral".toList then properties
        else { properties with culture := some (String.ofList value) }
      else if key = "PublicKeyToken".toList then { properties with keyToken := keyToken? value }
      else properties := by
  rw [Properties.add, Split.atFirst?_append hmark]
  dsimp only
  rw [Blank.trim_eq_self hkey.isTrimmed, Blank.trim_eq_self hvalue.isTrimmed]

theorem add_version : properties.add "Version=1.0.0.0".toList = properties :=
  @add_stated properties "Version".toList "1.0.0.0".toList (by decide) (isSolid_of_all (by decide))
    (isSolid_of_all (by decide))

theorem add_culture {culture : String} (hculture : IsSolid culture.toList)
    (hneutral : equalsIgnoringCase culture.toList "neutral".toList = false) :
    properties.add ("Culture=" ++ culture).toList =
      { properties with culture := some culture } := by
  have htext : ("Culture=" ++ culture).toList = "Culture".toList ++ '=' :: culture.toList := by
    simp
  rw [htext, add_stated properties (by decide) (isSolid_of_all (by decide)) hculture, if_pos rfl,
    hneutral]
  simp

theorem add_keyToken {text : String} {token : List UInt8} (h : SpellsToken text token) :
    properties.add ("PublicKeyToken=" ++ text).toList =
      { properties with keyToken := some token } := by
  have htext : ("PublicKeyToken=" ++ text).toList =
      "PublicKeyToken".toList ++ '=' :: text.toList := by simp
  rw [htext, add_stated properties (by decide) (isSolid_of_all (by decide))
    (IsSolid.of_spells h.1), if_neg (by decide), if_pos rfl, keyToken?_of_spells h]

end

theorem Separable.isSolid_culture (h : name.Separable) {culture : String}
    (hculture : name.culture = some culture) : IsSolid culture.toList :=
  IsSolid.of_plain (h.plain culture (by simp [parts, hculture]))

theorem Separable.found (h : name.Separable) (hkey : Option.Rel SpellsToken key name.keyToken) :
    ((name.statedProperties key).map String.toList).foldl Properties.add {} =
      { culture := name.culture, keyToken := name.keyToken } := by
  have hculture : ((name.culture.toList.map ("Culture=" ++ ·)).map String.toList).foldl
      Properties.add {} = { culture := name.culture } := by
    cases hc : name.culture with
    | none => rfl
    | some culture => exact add_culture {} (h.isSolid_culture hc) (h.foreign culture hc)
  have htoken : ∀ properties : Properties, properties.keyToken = none →
      ((key.toList.map ("PublicKeyToken=" ++ ·)).map String.toList).foldl Properties.add
        properties = { properties with keyToken := name.keyToken } := by
    intro properties hnone
    generalize name.keyToken = token at hkey
    cases hkey with
    | none =>
      rw [← hnone]
      rfl
    | some hspells => exact add_keyToken properties hspells
  rw [statedProperties, List.map_cons, List.foldl_cons, add_version, List.map_append,
    List.foldl_append, hculture, htoken _ rfl]

theorem Separable.isSolid_stated (h : name.Separable)
    (hkey : Option.Rel SpellsToken key name.keyToken) :
    ∀ part ∈ name.assembly :: name.statedProperties key, IsSolid part.toList := by
  rw [statedProperties, List.forall_mem_cons, List.forall_mem_cons, List.forall_mem_append]
  refine ⟨IsSolid.of_plain (h.plain _ (by simp [parts])), isSolid_of_all (by decide), ?_, ?_⟩
  · simp only [List.forall_mem_map, Option.mem_toList, String.toList_append]
    intro culture hc
    exact IsSolid.append (isSolid_of_all (by decide)) (h.isSolid_culture hc)
  · simp only [List.forall_mem_map, Option.mem_toList, String.toList_append]
    intro text htext
    generalize name.keyToken = token at hkey
    cases hkey with
    | none => cases htext
    | some hspells =>
      cases htext
      exact IsSolid.append (isSolid_of_all (by decide)) (IsSolid.of_spells hspells.1)

/-! ## The whole text -/

/-- The blank behind a comma belongs to the part that follows. -/
theorem intercalate_blank (first : List Char) (others : List (List Char)) :
    [',', ' '].intercalate (first :: others) =
      [','].intercalate (first :: others.map (' ' :: ·)) := by
  induction others generalizing first with
  | nil => rfl
  | cons second others ih =>
    have hblank : [','].intercalate ((' ' :: second) :: others.map (' ' :: ·)) =
        ' ' :: [','].intercalate (second :: others.map (' ' :: ·)) := by
      cases others with
      | nil => simp
      | cons third others => simp [List.intercalate_cons_cons]
    rw [List.map_cons, List.intercalate_cons_cons, List.intercalate_cons_cons, hblank, ih]
    simp

theorem toList_qualified (name : EnumName) (key : Option String) :
    (name.qualified key).toList = name.fullName.toList ++ ',' :: [','].intercalate
      ((name.assembly :: name.statedProperties key).map fun part => ' ' :: part.toList) := by
  rw [qualified, String.toList_intercalate, List.map_cons]
  refine (intercalate_blank _ _).trans ?_
  rw [List.map_map, List.map_cons, List.intercalate_cons_cons, List.append_assoc]
  rfl

theorem Separable.fields_behind (h : name.Separable)
    (hkey : Option.Rel SpellsToken key name.keyToken) :
    (Split.fields ',' ([','].intercalate
      ((name.assembly :: name.statedProperties key).map fun part => ' ' :: part.toList))).map
        Blank.trim = name.assembly.toList :: (name.statedProperties key).map String.toList := by
  have hsolid := h.isSolid_stated hkey
  have hmark : ∀ part ∈ (name.assembly :: name.statedProperties key).map
      fun part => ' ' :: part.toList, ',' ∉ part := by
    simp only [List.forall_mem_map]
    intro part hp
    exact List.not_mem_cons_of_ne_of_not_mem (by decide) (hsolid part hp).not_mem
  rw [Split.fields_intercalate hmark (by simp), List.map_map, ← List.map_cons]
  exact List.map_congr_left fun part hp => (hsolid part hp).trim_cons

theorem Separable.spelled (h : name.Separable) (hkey : Option.Rel SpellsToken key name.keyToken) :
    Spelled (name.qualified key) name name.fullName.toList
      ([','].intercalate
        ((name.assembly :: name.statedProperties key).map fun part => ' ' :: part.toList))
      (qualify name.nameSpace name.name).toList
      ((name.statedProperties key).map String.toList) := by
  have htrim : Blank.trim name.fullName.toList = name.fullName.toList :=
    Blank.trim_eq_self h.isSolid_fullName.isTrimmed
  refine
    { cut := Split.atFirst?_eq_some_iff.2 ⟨toList_qualified name key, h.isSolid_fullName.not_mem⟩
      plain := ?_
      nesting := by rw [htrim, h.nesting?_fullName]
      type := h.splitNamespace_qualify
      named := h.named
      parts := h.fields_behind hkey
      assembled := h.assembled
      found := h.found hkey }
  rw [htrim]
  intro c hc
  rcases h.plain_fullName c hc with hplain | rfl
  · exact (isReserved_eq_false_iff.1 hplain).2.1
  · decide

end

/-! ## Look-ups -/

section

open Attempt Signature Signature.Decoding Assembly

variable {name : EnumName} {key : Option String}

/-- The bytes are read and the look-up is asked once, for this name. -/
def AsksFor {α : Type} (step : ∀ {σ : Type}, EnumLookup σ → Decoding σ α) (bytes : List UInt8)
    (name : EnumName) (answer : Option Primitive → α) : Prop :=
  ∀ {σ : Type} (lookup : EnumLookup σ) (cursor : Cursor) (state : σ) (back : List UInt8),
    cursor.Sees (bytes ++ back) →
      step lookup (cursor, state) =
        (.ok (answer (lookup name state).1),
          (cursor.forward bytes.length, (lookup name state).2))

theorem ask_apply {σ : Type} (lookup : EnumLookup σ) (name : EnumName) (cursor : Cursor)
    (state : σ) :
    (build (ExceptT.lift (lookup name)) : Decoding σ (Option Primitive)) (cursor, state) =
      (.ok (lookup name state).1, (cursor, (lookup name state).2)) :=
  rfl

/-- A value of an enum that is named by a text. -/
theorem asksFor_tag {text : String} (hread : parse? text = some name)
    (hfits : (ElementTag.enum (some text)).WellFormed) :
    AsksFor (fun lookup => kindOfTag lookup (ElementTag.enum (some text)).code)
      (ElementTag.enum (some text)).tail name ElementKind.ofUnderlying := by
  intro σ lookup cursor state back hc
  have htext : (Decoding.read SerializedText.read : Decoding σ (Option String)) (cursor, state) =
      (.ok (some text), (cursor.forward (SerializedText.encode (some text)).length, state)) := by
    rw [Decoding.read, onPart, SerializedText.reads_read hfits cursor back hc]
  refine (bind_apply_ok htext).trans ?_
  rw [Option.bind_some, hread]
  exact bind_apply_ok (ask_apply lookup name _ state)

/-- A parameter of an enum that is referred to. -/
theorem asksFor_foreign {assembly : Assembly} {type : TypeRefRow}
    (h : assembly.enumNameOf type = .ok (some name)) :
    AsksFor (fun lookup => assembly.foreignKind lookup type) [] name enumKind? := by
  intro σ lookup cursor state back _
  dsimp only
  rw [foreignKind, h, bind_liftM_ok]
  exact bind_apply_ok (ask_apply lookup name cursor state)

/-- **A separable name is read from its qualified name, and it is asked for alike where a value has
    that text and where a signature refers to the type.** -/
theorem parse?_qualified (h : name.Separable) (hkey : Option.Rel SpellsToken key name.keyToken) :
    parse? (name.qualified key) = some name ∧
      ∀ (assembly : Assembly) (type : TypeRefRow),
        assembly.enumNameOf type = .ok (some name) →
        (ElementTag.enum (some (name.qualified key))).WellFormed →
        AsksFor (fun lookup => kindOfTag lookup (ElementTag.enum (some (name.qualified key))).code)
            (ElementTag.enum (some (name.qualified key))).tail name ElementKind.ofUnderlying ∧
          AsksFor (fun lookup => assembly.foreignKind lookup type) [] name enumKind? := by
  have hread : parse? (name.qualified key) = some name :=
    parse?_eq_some_iff.2 ⟨_, _, _, _, h.spelled hkey⟩
  exact ⟨hread, fun assembly type htype hfits => ⟨asksFor_tag hread hfits, asksFor_foreign htype⟩⟩

/-- An enum inside a type of an assembly for a culture. -/
def tone : EnumName where
  assembly := "Colors"
  culture := some "de"
  keyToken := some [0xB0, 0x3F, 0x5F, 0x7F, 0x11, 0xD5, 0x0A, 0x3A]
  nameSpace := "Art.Oil"
  name := "Palette"
  nested := some "Tone"

/-- An assembly that refers to this enum. -/
def painting : Assembly :=
  let rows : TableId → List (List UInt8)
    | .typeRef => [[6, 0, 11, 0, 19, 0], [7, 0, 27, 0, 0, 0]]
    | .assemblyRef => [LittleEndian.encode 12 0 ++ [1, 0, 1, 0, 8, 0, 0, 0]]
    | _ => []
  .ofRows rows ("\x00Colors\x00de\x00Palette\x00Art.Oil\x00Tone\x00".toUTF8.data.toList)
    [0, 8, 0xB0, 0x3F, 0x5F, 0x7F, 0x11, 0xD5, 0x0A, 0x3A] {}

theorem separable_tone : tone.Separable where
  plain := by
    have hall : tone.parts.all (fun part => part.toList.all fun c => !isReserved c) = true := by
      decide
    simpa using hall
  assembled := by decide
  named := by decide
  simple := by decide
  nested := by decide
  foreign := by
    rintro _ ⟨⟩
    decide

/-- The token of the public key of that assembly. -/
def toneKey : String := "B03f5F7f11d50A3a"

theorem spellsToken_tone : Option.Rel SpellsToken (some toneKey) tone.keyToken :=
  .some ⟨.cons rfl rfl rfl (.cons rfl rfl rfl (.cons rfl rfl rfl (.cons rfl rfl rfl (.cons rfl
    rfl rfl (.cons rfl rfl rfl (.cons rfl rfl rfl (.cons rfl rfl rfl .nil))))))), rfl⟩

theorem enumNameOf_painting : painting.enumNameOf ⟨2, ⟨.typeRef, 1⟩, 27, 0⟩ = .ok (some tone) :=
  eq_ok_of_toOption (by decide +kernel)

theorem qualified_tone :
    tone.qualified (some toneKey) = "Art.Oil.Palette+Tone, Colors, Version=1.0.0.0, " ++
      "Culture=de, PublicKeyToken=B03f5F7f11d50A3a" := by
  decide

theorem parse?_qualified_tone :
    (tone.Separable ∧ Option.Rel SpellsToken (some toneKey) tone.keyToken) ∧
      painting.enumNameOf ⟨2, ⟨.typeRef, 1⟩, 27, 0⟩ = .ok (some tone) ∧
      (ElementTag.enum (some (tone.qualified (some toneKey)))).WellFormed ∧
      parse? (tone.qualified (some toneKey)) = some tone ∧
      AsksFor
        (fun lookup => kindOfTag lookup (ElementTag.enum (tone.qualified (some toneKey))).code)
        (ElementTag.enum (tone.qualified (some toneKey))).tail tone ElementKind.ofUnderlying ∧
      AsksFor (fun lookup => painting.foreignKind lookup ⟨2, ⟨.typeRef, 1⟩, 27, 0⟩) [] tone
        enumKind? := by
  obtain ⟨hread, hasks⟩ := parse?_qualified separable_tone spellsToken_tone
  have hfits : (ElementTag.enum (some (tone.qualified (some toneKey)))).WellFormed := by
    rw [qualified_tone]
    decide
  exact ⟨⟨separable_tone, spellsToken_tone⟩, enumNameOf_painting, hfits, hread,
    hasks painting _ enumNameOf_painting hfits⟩

end

end EnumName

end ApiCensus
