/-
  Boxes inside boxes.

  A boxed array of objects may hold a boxed array of objects, and so on. Nothing but the bytes of
  the value bounds how often.

  * `AttributeValue.nested`, `SignatureType.nested`: arrays of objects inside each other, as a value
    and as a type.
  * `Signature.type_nested`, `Signature.skip_nested`: a type that is nested more than fifty times is
    neither read nor passed over.
  * `Assembly.namedArguments_nested`: a value is passed over however often it is nested.
-/
import ApiCensus.Proofs.Attribute.RoundTrip
import ApiCensus.Proofs.Metadata.Heap
import ApiCensus.Proofs.Signature.RoundTrip
import Mathlib.Data.List.TakeWhile

namespace ApiCensus

open Attempt Signature Signature.Decoding

/-! ## Values -/

namespace AttributeValue

/-- A boxed array of objects: an empty one around which there are `n` others. -/
def nested : Nat → AttributeValue
  | 0 => .boxed (.vector .object) (.vector [])
  | n + 1 => .boxed (.vector .object) (.vector [nested n])

theorem depth_nested (n : Nat) : (nested n).depth = n + 1 := by
  induction n with
  | zero => rfl
  | succ n ih => simp [nested, depth, depthOfAll, ih]

theorem isReadable_nested (n : Nat) : (nested n).isReadable = true := by
  induction n with
  | zero => rfl
  | succ n ih => simp [nested, isReadable, allReadable, ih]

/-- Six bytes are enough for one more box. -/
theorem length_encode_nested (n : Nat) : (nested n).encode.length = 6 * (n + 1) := by
  induction n with
  | zero => rfl
  | succ n ih =>
    simp only [nested, encode, encodeAll, List.length_append, List.length_nil,
      LittleEndian.length_encode, ih]
    simp only [TypeTag.encode, ElementTag.tail, List.length_cons, List.length_nil]
    omega

theorem hasType_nested (answers : EnumName → Option Primitive) (n : Nat) :
    (nested n).HasType answers (.element .boxed) := by
  induction n with
  | zero => exact .boxed trivial nofun (.vector (by decide) (by simp))
  | succ n ih =>
    refine .boxed trivial nofun (.vector (by simp) ?_)
    intro element helement
    rw [List.mem_singleton.1 helement]
    exact ih

end AttributeValue

/-! ## Types -/

/-- An array of arrays, `n` of them around the type of objects. -/
def SignatureType.nested : Nat → SignatureType
  | 0 => .primitive .object
  | n + 1 => .vector (nested n)

namespace Signature

variable {σ : Type}

theorem depth_nested (n : Nat) : (SignatureType.nested n).depth = n + 1 := by
  induction n with
  | zero => rfl
  | succ n ih => simp [SignatureType.nested, SignatureType.depth, ih]

theorem wellFormed_nested (n : Nat) : (SignatureType.nested n).WellFormed := by
  induction n with
  | zero => trivial
  | succ n ih => exact ih

/-- A type that is nested too often is not read. -/
theorem type_nested {n : Nat} (hn : maxDepth ≤ n) (rest : List UInt8) (state : σ) :
    (type TypeBuilder.tree
        ({ data := ((SignatureType.nested n).encode ++ rest).toByteArray }, state)).1 =
      .error (.tooDeep maxDepth) := by
  have hread : ReadsWithin (σ := σ) (fun _ => True) _ _ _ _ :=
    within_typeWithin (wellFormed_nested n) maxDepth
  have hdeep : ¬ (SignatureType.nested n).depth ≤ maxDepth := by
    rw [depth_nested]
    omega
  obtain ⟨place, -, hrun⟩ := hread.ends hdeep _ state _ (Cursor.sees_start _) trivial
  rw [type, hrun]

theorem skipWithin_nested {levels n : Nat} (hn : levels ≤ n) {cursor : Cursor}
    {rest : List UInt8} (hs : cursor.Sees ((SignatureType.nested n).encode ++ rest)) :
    (skipWithin levels cursor).1 = .error (.tooDeep maxSkipDepth) := by
  induction levels generalizing n cursor with
  | zero => rfl
  | succ levels ih =>
    obtain ⟨n, rfl⟩ : ∃ m, n = m + 1 := ⟨n - 1, by omega⟩
    have hbyte := Cursor.reads_byte Element.vector.code cursor _ hs
    have hsplit : cursor.Sees ([Element.vector.code] ++ _) := hs
    rw [skipWithin, bind_apply_ok hbyte]
    exact ih (by omega) hsplit.forward

/-- A type that is nested too often is not passed over. -/
theorem skip_nested {n : Nat} (hn : maxSkipDepth < n) (rest : List UInt8) :
    (skip { data := ((SignatureType.nested n).encode ++ rest).toByteArray }).1 =
      .error (.tooDeep maxSkipDepth) :=
  skipWithin_nested hn (Cursor.sees_start _)

end Signature

/-! ## Arguments -/

namespace Assembly

variable {σ : Type} {kept : σ → Prop} {lookup : EnumLookup σ}
  {answers : EnumName → Option Primitive} {assembly : Assembly} {row : CustomAttributeRow}
  {constructor : MemberRefRow} {header : Header} {fixed : List FixedValue} {named : List NamedValue}

theorem namedArguments_of_isReadable {state : σ} (hl : lookup.Answers kept answers)
    (hk : kept state) (h : assembly.IsEncoded answers row constructor header fixed named)
    (hfixed : ∀ argument ∈ fixed, argument.value.isReadable = true)
    (hnamed : ∀ argument ∈ named, argument.value.isReadable = true) :
    (assembly.namedArguments lookup row state).1 = (named.map NamedValue.argument, none) := by
  obtain ⟨place, hrun, hfound⟩ := eachNamedArgument_collects hl hk h
  rw [if_pos (List.all_eq_true.2 hfixed), List.takeWhile_eq_self_iff.2 hnamed] at hfound
  unfold namedArguments
  rw [← hfound, hrun]

/-- **Arguments without a part of unknown width are followed to their end, fixed ones and named
    ones, and no fault ends the list of the named ones. Boxed arrays inside each other are such
    arguments however often they are nested. A type of so many arrays inside each other is neither
    read from a signature nor passed over there, once it is deeper than the bound of either.** -/
theorem namedArguments_nested {state : σ} (hl : lookup.Answers kept answers) (hk : kept state)
    (h : assembly.IsEncoded answers row constructor header fixed named)
    (hfixed : ∀ argument ∈ fixed, argument.value.isReadable = true)
    (hnamed : ∀ argument ∈ named, argument.value.isReadable = true) :
    (assembly.namedArguments lookup row state).1 = (named.map NamedValue.argument, none) ∧
      (∀ n, (AttributeValue.nested n).HasType answers (.element .boxed) ∧
        (AttributeValue.nested n).isReadable = true ∧ (AttributeValue.nested n).depth = n + 1 ∧
        (AttributeValue.nested n).encode.length = 6 * (n + 1)) ∧
      ∀ (n : Nat) (rest : List UInt8),
        (maxDepth < n →
          (Signature.type TypeBuilder.tree
              ({ data := ((SignatureType.nested n).encode ++ rest).toByteArray }, state)).1 =
            .error (.tooDeep maxDepth)) ∧
        (maxSkipDepth < n →
          (Signature.skip { data := ((SignatureType.nested n).encode ++ rest).toByteArray }).1 =
            .error (.tooDeep maxSkipDepth)) := by
  refine ⟨namedArguments_of_isReadable hl hk h hfixed hnamed, ?_, ?_⟩
  · intro n
    exact ⟨AttributeValue.hasType_nested answers n, AttributeValue.isReadable_nested n,
      AttributeValue.depth_nested n, AttributeValue.length_encode_nested n⟩
  · intro n rest
    exact ⟨fun hn => type_nested (Nat.le_of_lt hn) rest state, fun hn => skip_nested hn rest⟩

/-! ## An attribute -/

/-- The object that the constructor takes. -/
def boxingFixed (n : Nat) : List FixedValue :=
  [⟨.primitive .object, .nested n⟩]

/-- A property of the type of objects. -/
def boxingNamed (n : Nat) : List NamedValue :=
  [⟨.property, .element .object, some "P", .nested n⟩]

/-- The bytes of the constructor's signature. -/
def boxingSignature (n : Nat) : ByteArray :=
  (SignatureType.encodeMethod (constructorSignature ⟨0x20⟩ (boxingFixed n))).toByteArray

/-- The bytes of the arguments. -/
def boxingValue (n : Nat) : ByteArray :=
  (encodeAttribute (boxingFixed n) (boxingNamed n)).toByteArray

/-- The rows of an assembly with one attribute. -/
def boxingRows : TableId → List (List UInt8)
  | .typeRef => [[0, 0, 1, 0, 0, 0]]
  | .memberRef => [[9, 0, 1, 0, 1, 0]]
  | .customAttribute => [[46, 0, 11, 0, 6, 0]]
  | _ => []

/-- The blobs of that assembly. -/
def boxingBlobs (n : Nat) : List UInt8 :=
  [0] ++ (HeapValue.encode (boxingSignature n) ++ HeapValue.encode (boxingValue n))

/-- An assembly with one attribute, which has these arguments. -/
def boxing (n : Nat) : Assembly :=
  .ofRows boxingRows [0, 0x41, 0] (boxingBlobs n) {}

/-- The row of that attribute. -/
def boxingRow : CustomAttributeRow :=
  ⟨1, ⟨.assembly, 1⟩, ⟨.memberRef, 1⟩, 6⟩

theorem size_boxingSignature (n : Nat) : (boxingSignature n).size = 4 := by
  rw [boxingSignature, encodeMethod_constructorSignature rfl, boxingFixed, List.flatMap_singleton,
    SignatureType.encode]
  rfl

theorem size_boxingValue (n : Nat) : (boxingValue n).size = 12 * n + 20 := by
  have hname : (SerializedText.encode (some "P")).length = 2 := by decide
  simp only [boxingValue, boxingFixed, boxingNamed, List.size_toByteArray, encodeAttribute,
    NamedValue.encode, List.flatMap_cons, List.flatMap_nil, List.append_nil, List.length_append,
    List.length_cons, LittleEndian.length_encode, AttributeValue.length_encode_nested, hname,
    TypeTag.encode, ElementTag.tail, List.length_nil]
  omega

theorem blobs_boxing (n : Nat) : (boxing n).blobs = (boxingBlobs n).toByteArray := by
  rw [boxing, ofRows]

/-- The rows do not depend on the blobs, which stand in the way of a computation. -/
theorem row_boxing (blobs : List UInt8) :
    (ofRows boxingRows [0, 0x41, 0] blobs {}).row MemberRefRow 1 =
      .ok ⟨1, ⟨.typeRef, 1⟩, 1, 1⟩ := by
  have hbare : (ofRows boxingRows [0, 0x41, 0] blobs {}).row MemberRefRow 1 =
      (ofRows boxingRows [0, 0x41, 0] [] {}).row MemberRefRow 1 := rfl
  rw [hbare]
  rfl

theorem signature_boxing (n : Nat) : (boxing n).blob 1 = .ok (boxingSignature n) := by
  rw [blob, blobs_boxing]
  have hsize := size_boxingSignature n
  have hholds : Heap.Holds (boxingBlobs n) 1 (boxingSignature n) := by
    rw [Heap.Holds, if_neg (by simp [HeapValue.isEmpty, ByteArray.isEmpty, hsize])]
    exact ⟨[0], HeapValue.encode (boxingValue n), rfl, rfl, by decide⟩
  exact Heap.blob_of_holds hholds (by rw [hsize]; decide)

theorem value_boxing {n : Nat} (hn : 12 * n + 20 < Compressed.bound) :
    (boxing n).blob 6 = .ok (boxingValue n) := by
  rw [blob, blobs_boxing]
  have hsize := size_boxingSignature n
  have hholds : Heap.Holds (boxingBlobs n) 6 (boxingValue n) := by
    rw [Heap.Holds, if_neg (by simp [HeapValue.isEmpty, ByteArray.isEmpty, size_boxingValue])]
    refine ⟨[0] ++ HeapValue.encode (boxingSignature n), [], by simp [boxingBlobs], ?_, by decide⟩
    have hlength : (boxingSignature n).data.size = 4 := hsize
    simp [HeapValue.encode, hsize, hlength, Compressed.encode]
  exact Heap.blob_of_holds hholds (by rwa [size_boxingValue])

theorem isEncoded_boxing {n : Nat} (hn : 12 * n + 20 < Compressed.bound)
    (answers : EnumName → Option Primitive) :
    (boxing n).IsEncoded answers boxingRow ⟨1, ⟨.typeRef, 1⟩, 1, 1⟩ ⟨0x20⟩ (boxingFixed n)
      (boxingNamed n) where
  isMember := rfl
  isConstructor := row_boxing (boxingBlobs n)
  context := ⟨none, rfl⟩
  isMethod := rfl
  notGeneric := rfl
  parameters := by
    show 1 < Compressed.bound
    decide
  signature := signature_boxing n
  fixedTyped := by
    intro argument hargument
    rw [List.mem_singleton.1 hargument]
    exact ⟨_, .object, AttributeValue.hasType_nested answers n⟩
  namedTyped := by
    intro argument hargument
    rw [List.mem_singleton.1 hargument]
    exact ⟨trivial, (by decide : SerializedText.Fits (some "P")),
      AttributeValue.hasType_nested answers n⟩
  namedCount := by
    show 1 < 0x10000
    decide
  value := value_boxing hn

theorem isReadable_boxing (n : Nat) :
    (∀ argument ∈ boxingFixed n, argument.value.isReadable = true) ∧
      ∀ argument ∈ boxingNamed n, argument.value.isReadable = true := by
  constructor
  all_goals
    intro argument hargument
    rw [List.mem_singleton.1 hargument]
    exact AttributeValue.isReadable_nested n

theorem answers_shades : shades.Answers (fun _ => True) fun name => (shades name ()).1 :=
  fun _ _ _ => ⟨rfl, trivial⟩

theorem namedArguments_nested_boxing :
    (boxing 60).IsEncoded (fun name => (shades name ()).1) boxingRow ⟨1, ⟨.typeRef, 1⟩, 1, 1⟩
        ⟨0x20⟩ (boxingFixed 60) (boxingNamed 60) ∧
      ((boxing 60).namedArguments shades boxingRow ()).1 = ([⟨.property, some "P"⟩], none) := by
  have hencoded := isEncoded_boxing (n := 60) (by decide) fun name => (shades name ()).1
  exact ⟨hencoded, (namedArguments_nested answers_shades trivial hencoded
    (isReadable_boxing 60).1 (isReadable_boxing 60).2).1⟩

/-- A value that is deeper than any type may be is passed over all the same. -/
theorem namedArguments_boxing_deep :
    maxDepth < (AttributeValue.nested 51).depth ∧ maxSkipDepth < (AttributeValue.nested 51).depth ∧
      (boxing 51).blob boxingRow.value =
        .ok (encodeAttribute [⟨.primitive .object, .nested 51⟩]
          [⟨.property, .element .object, some "P", .nested 51⟩]).toByteArray ∧
      ((boxing 51).namedArguments shades boxingRow ()).1 = ([⟨.property, some "P"⟩], none) := by
  have hencoded := isEncoded_boxing (n := 51) (by decide) fun name => (shades name ()).1
  refine ⟨?_, ?_, hencoded.value, ?_⟩
  · rw [AttributeValue.depth_nested]
    decide
  · rw [AttributeValue.depth_nested]
    decide
  · exact namedArguments_of_isReadable answers_shades trivial hencoded (isReadable_boxing 51).1
      (isReadable_boxing 51).2

end Assembly

end ApiCensus
