/-
  A type is read back from its bytes.

  * `Signature.reads_arrayShape`, `reads_nominal`, `within_parameters`, `within_methodOf`: what
    the parts of the reader read.
  * `Signature.within_typeWithin`: a tree is read back with any bound on the depth; a tree that
    is deeper ends with the bound as the fault.
  * `Signature.type_encode`: the same for whole signatures and the bound of this library.
-/
import ApiCensus.Proofs.Signature.Encoding
import ApiCensus.Proofs.Signature.Reading

namespace ApiCensus.Signature

open Decoding SignatureType

variable {σ : Type} {kept : σ → Prop}

/-! ## Arrays -/

theorem reads_numbers {ns : List Nat} (h : ∀ n ∈ ns, Compressed.IsNumber n) :
    Cursor.Reads (Attempt.repeated Compressed.number ns.length) (ns.flatMap Compressed.encode) ns :=
  Cursor.reads_repeated fun n hn => Compressed.reads_number (h n hn)

theorem reads_signedNumbers {ns : List Int} (h : ∀ n ∈ ns, Compressed.IsSigned n) :
    Cursor.Reads (Attempt.repeated Compressed.signedNumber ns.length)
      (ns.flatMap Compressed.encodeSigned) ns :=
  Cursor.reads_repeated fun n hn => Compressed.reads_signedNumber (h n hn)

/-- The dimensions of an array are read back. -/
theorem reads_arrayShape {shape : ArrayShape} (h : shape.WellFormed) :
    Cursor.Reads arrayShape shape.encode shape := by
  have hsizes : Compressed.IsNumber shape.sizes.length := Nat.lt_of_le_of_lt h.sizes_le h.rank
  have hbounds : Compressed.IsNumber shape.lowerBounds.length :=
    Nat.lt_of_le_of_lt h.lowerBounds_le h.rank
  refine (Compressed.reads_number h.rank).bind ?_
  rw [if_neg (Nat.ne_of_gt h.rank_pos)]
  refine (Compressed.reads_number hsizes).bind ?_
  rw [if_neg (Nat.not_lt.2 h.sizes_le)]
  refine (reads_numbers h.sizes).bind ((Compressed.reads_number hbounds).bind ?_)
  rw [if_neg (Nat.not_lt.2 h.lowerBounds_le)]
  exact (reads_signedNumbers h.lowerBounds).map fun lowerBounds => { shape with lowerBounds }

/-! ## Handles -/

theorem reads_tableToken {table : TableId} {token : Token} (ht : Compressed.IsTypeTable table)
    (h : token.isIn table) :
    Cursor.Reads Compressed.token (Compressed.encodeToken table token.row) token := by
  have hr : token.row < Token.rowBound := Nat.mod_lt _ (by decide)
  have hread := Compressed.reads_token ht hr
  rwa [Token.ofRow_row h] at hread

/-- A handle is read back; the byte that gives its form stands in front of what is read. -/
theorem reads_nominal {form : NominalForm} {tree : SignatureType} (h : IsNominal form tree) :
    ∃ bytes, tree.encode = form.encode ++ bytes ∧
      Reads kept (nominal TypeBuilder.tree form) bytes tree := by
  cases tree with
  | definition token form' =>
    obtain ⟨rfl, ht⟩ := h
    refine ⟨_, rfl, (reads_read (reads_tableToken (Or.inl rfl) ht)).bind_nil ?_⟩
    rw [Token.table?_of_isIn ht]
    exact reads_build fun state hk => ⟨state, hk, rfl⟩
  | reference token form' =>
    obtain ⟨rfl, ht⟩ := h
    refine ⟨_, rfl, (reads_read (reads_tableToken (Or.inr (Or.inl rfl)) ht)).bind_nil ?_⟩
    rw [Token.table?_of_isIn ht]
    exact reads_build fun state hk => ⟨state, hk, rfl⟩
  | specification token form' =>
    obtain ⟨rfl, ht⟩ := h
    refine ⟨_, rfl, (reads_read (reads_tableToken (Or.inr (Or.inr rfl)) ht)).bind_nil ?_⟩
    rw [Token.table?_of_isIn ht]
    exact reads_build fun state hk => ⟨state, hk, rfl⟩
  | _ => simp [IsNominal] at h

/-! ## Parameters -/

/-- The bytes do not begin with the mark before optional parameters. -/
def Unmarked (bytes : List UInt8) : Prop :=
  ∃ lead tail, bytes = lead :: tail ∧ lead ≠ Element.sentinel

theorem unmarked_code (e : Element) (tail : List UInt8) : Unmarked (e.code :: tail) := by
  refine ⟨e.code, tail, rfl, fun h => ?_⟩
  have hc : Element.ofCode? Element.sentinel = some e := by rw [← h, Element.ofCode?_code]
  simp [show Element.ofCode? Element.sentinel = none from rfl] at hc

theorem unmarked_encode {tree : SignatureType} (h : tree.WellFormed) : Unmarked tree.encode := by
  have hnominal : ∀ {form : NominalForm} {bytes}, form ≠ .unstated →
      Unmarked (form.encode ++ bytes) := by
    intro form bytes hf
    cases form with
    | classType => exact unmarked_code .classType bytes
    | valueType => exact unmarked_code .valueType bytes
    | unstated => exact absurd rfl hf
  cases tree with
  | definition token form => exact hnominal h.1
  | reference token form => exact hnominal h.1
  | specification token form => exact hnominal h.1
  | primitive type => exact unmarked_code (.primitive type) []
  | modified modifier unmodified required => exact unmarked_code (.modifier required) _
  | vector element => exact unmarked_code .vector _
  | array element shape => exact unmarked_code .array _
  | byReference element => exact unmarked_code .byReference _
  | pointer element => exact unmarked_code .pointer _
  | pinned element => exact unmarked_code .pinned _
  | instantiation generic arguments => exact unmarked_code .instantiation _
  | typeParameter index => exact unmarked_code .typeParameter _
  | methodParameter index => exact unmarked_code .methodParameter _
  | functionPointer signature => exact unmarked_code .functionPointer _

theorem encodeParameters_nil (required : Nat) : encodeParameters required [] = [] := by
  simp [encodeParameters]

theorem encodeParameters_zero (part : List UInt8) (parts : List (List UInt8)) :
    encodeParameters 0 (part :: parts) = [Element.sentinel] ++ (part ++ parts.flatten) := by
  simp [encodeParameters]

theorem encodeParameters_succ (required : Nat) (part : List UInt8) (parts : List (List UInt8)) :
    encodeParameters (required + 1) (part :: parts) = part ++ encodeParameters required parts := by
  simp [encodeParameters]

section
variable {α : Type} {type : Decoding σ α} {fits : α → Prop} {encode : α → List UInt8}
  {items : List α}

/-- A parameter and those behind it. -/
theorem within_parameter_cons {p q : Prop} {front back : List UInt8} {item : α}
    {index left : Nat} {mark mark' : Option Nat} (hi : ReadsWithin kept p type front item)
    (hr : ReadsWithin kept q (parameters type index mark left) back (items, mark')) :
    ReadsWithin kept (p ∧ q)
      (do
        let parameter ← type
        let (rest, mark) ← parameters type index mark left
        pure (parameter :: rest, mark))
      (front ++ back) (item :: items, mark') := by
  have hrest : ReadsWithin kept q
      (do
        let (rest, mark) ← parameters type index mark left
        pure (item :: rest, mark))
      back (item :: items, mark') := hr.bind_nil (reads_pure _)
  exact hi.bind hrest

/-- Behind the mark the parameters follow each other. -/
theorem within_parameters_marked (mark index : Nat)
    (h : ∀ item ∈ items, ReadsWithin kept (fits item) type (encode item) item)
    (hu : ∀ item ∈ items, Unmarked (encode item)) :
    ReadsWithin kept (∀ item ∈ items, fits item)
      (parameters type index (some mark) items.length) (items.map encode).flatten
      (items, some mark) := by
  induction items generalizing index with
  | nil => exact (reads_pure _).readsOr.congr (by simp)
  | cons item items ih =>
    have hi := h item (by simp)
    have hr := ih (index + 1) (fun other ho => h other (by simp [ho]))
      fun other ho => hu other (by simp [ho])
    obtain ⟨lead, tail, he, hl⟩ := hu item (by simp)
    have hboth := within_parameter_cons hi hr
    rw [List.map_cons, List.flatten_cons]
    refine ReadsOr.congr (p := fits item ∧ ∀ other ∈ items, fits other) ?_ (by simp)
    rw [he, List.cons_append] at hboth ⊢
    refine ReadsOr.peek ?_
    rw [if_neg (by simpa using hl)]
    exact (reads_pure (some mark)).bind_or hboth

/-- The parameters are read back, and so is the place of the mark. -/
theorem within_parameters (required index : Nat)
    (h : ∀ item ∈ items, ReadsWithin kept (fits item) type (encode item) item)
    (hu : ∀ item ∈ items, Unmarked (encode item)) :
    ReadsWithin kept (∀ item ∈ items, fits item)
      (parameters type index none items.length) (encodeParameters required (items.map encode))
      (items, if required < items.length then some (index + required) else none) := by
  induction items generalizing index required with
  | nil =>
    rw [List.map_nil, encodeParameters_nil]
    exact (reads_pure _).readsOr.congr (by simp)
  | cons item items ih =>
    have hi := h item (by simp)
    have hother : ∀ other ∈ items, ReadsWithin kept (fits other) type (encode other) other :=
      fun other ho => h other (by simp [ho])
    have huother : ∀ other ∈ items, Unmarked (encode other) := fun other ho => hu other (by simp [ho])
    rw [List.map_cons]
    refine ReadsOr.congr (p := fits item ∧ ∀ other ∈ items, fits other) ?_ (by simp)
    cases required with
    | zero =>
      have hrest := within_parameter_cons hi
        (within_parameters_marked index (index + 1) hother huother)
      rw [encodeParameters_zero]
      refine ReadsOr.peek ?_
      rw [if_pos (by simp), if_neg (by simp)]
      refine (reads_read (Cursor.reads_advance [Element.sentinel])).bind_or ?_
      exact (reads_pure (some index)).bind_or hrest
    | succ required =>
      obtain ⟨lead, tail, he, hl⟩ := hu item (by simp)
      have hboth := within_parameter_cons hi (ih required (index + 1) hother huother)
      have hmark : (if required < items.length then some (index + 1 + required) else none) =
          if required + 1 < (item :: items).length then some (index + (required + 1)) else none := by
        simp only [List.length_cons, Nat.add_lt_add_iff_right, Nat.add_assoc, Nat.add_comm 1]
      rw [hmark, he] at hboth
      rw [encodeParameters_succ, he]
      refine ReadsOr.peek ?_
      rw [if_neg (by simpa using hl)]
      exact (reads_pure none).bind_or hboth

end

/-! ## Method signatures -/

theorem reads_header (header : Header) : Cursor.Reads Signature.header [header.byte] header :=
  (Cursor.reads_byte header.byte).map Header.mk

/-- A method signature is read back if its types are. -/
theorem within_methodOf {type : Decoding σ SignatureType} {fits : SignatureType → Prop}
    {signature : MethodSignature SignatureType} (hc : signature.CountsFit)
    (hreturn : ReadsWithin kept (fits signature.returnType) type signature.returnType.encode
      signature.returnType)
    (h : ∀ tree ∈ signature.parameters, ReadsWithin kept (fits tree) type tree.encode tree)
    (hu : ∀ tree ∈ signature.parameters, Unmarked tree.encode) :
    ReadsWithin kept
      (fits signature.returnType ∧ ∀ tree ∈ signature.parameters, fits tree)
      (methodOf type) (encodeMethod signature) signature := by
  obtain ⟨header, genericCount, requiredCount, returnType, parameters⟩ := signature
  have hparameters := within_parameters requiredCount 0 h hu
  have hrequired : (if requiredCount < parameters.length then some (0 + requiredCount) else none).getD
      parameters.length = requiredCount := by
    have hle : requiredCount ≤ parameters.length := hc.required
    split <;> simp only [Option.getD] <;> omega
  have hrest : ReadsWithin kept (∀ tree ∈ parameters, fits tree)
      (do
        let (parameters', sentinel) ← Signature.parameters type 0 none parameters.length
        pure { header, genericCount, requiredCount := sentinel.getD parameters.length, returnType,
               parameters := parameters' })
      (encodeParameters requiredCount (parameters.map encode))
      (⟨header, genericCount, requiredCount, returnType, parameters⟩ :
        MethodSignature SignatureType) := by
    refine hparameters.bind_nil ?_
    simp only [hrequired]
    exact reads_pure _
  have hcounted : ReadsWithin kept (fits returnType ∧ ∀ tree ∈ parameters, fits tree)
      (do
        let count ← read Compressed.number
        let returnType ← type
        let (parameters, sentinel) ← Signature.parameters type 0 none count
        pure { header, genericCount, requiredCount := sentinel.getD count, returnType, parameters })
      (Compressed.encode parameters.length
        ++ (returnType.encode ++ encodeParameters requiredCount (parameters.map encode)))
      (⟨header, genericCount, requiredCount, returnType, parameters⟩ :
        MethodSignature SignatureType) :=
    (reads_read (Compressed.reads_number hc.parameters)).bind_or (hreturn.bind hrest)
  rw [encodeMethod, encodeEach_eq_map, MethodSignature.encodeHeader]
  simp only [List.cons_append, List.append_assoc]
  refine (reads_read (reads_header header)).bind_or ?_
  rw [if_pos hc.kind]
  by_cases hg : header.isGeneric = true
  · rw [if_pos hg, if_pos hg]
    exact (reads_read (Compressed.reads_number (hc.generic hg))).bind_or hcounted
  · obtain rfl : genericCount = 0 := hc.plain (by simpa using hg)
    rw [if_neg hg, if_neg hg]
    exact (reads_pure 0).bind_or hcounted

/-! ## Types -/

theorem reads_tree (tree : SignatureType) :
    Reads kept (build (pure tree : Attempt σ SignatureType)) [] tree :=
  reads_build fun state hk => ⟨state, hk, rfl⟩

/-- The first byte says how to read on, with one visit less to spend. -/
theorem within_lead {p q : Prop} {limit : Nat} {bytes : List UInt8} {tree : SignatureType}
    (e : Element) (hpq : p ↔ q)
    (h : ReadsWithin kept p (typeFrom TypeBuilder.tree (typeWithin TypeBuilder.tree limit) e)
      bytes tree) :
    ReadsWithin kept q (typeWithin TypeBuilder.tree (limit + 1)) (e.code :: bytes) tree := by
  refine ((Decoding.reads_byte e.code).bind_or ?_).congr hpq
  rw [Element.ofCode?_code]
  exact h

/-- A handle is read back where a type is expected. -/
theorem within_nominal {form : NominalForm} {tree : SignatureType} (hf : form ≠ .unstated)
    (h : IsNominal form tree) (limit : Nat) :
    ReadsWithin kept True (typeWithin TypeBuilder.tree (limit + 1)) tree.encode tree := by
  obtain ⟨bytes, he, hr⟩ : ∃ bytes, _ ∧ Reads kept _ bytes tree := reads_nominal h
  rw [he]
  cases form with
  | classType => exact within_lead .classType Iff.rfl hr.readsOr
  | valueType => exact within_lead .valueType Iff.rfl hr.readsOr
  | unstated => exact absurd rfl hf

/-- A type made of one other. -/
theorem within_wrapped {p q : Prop} {limit : Nat} {bytes : List UInt8} {inner tree : SignatureType}
    {make : SignatureType → Attempt σ SignatureType} (e : Element) (hpq : p ↔ q)
    (h : ReadsWithin kept p (typeWithin TypeBuilder.tree limit) bytes inner)
    (hmake : make inner = pure tree)
    (he : typeFrom TypeBuilder.tree (typeWithin TypeBuilder.tree limit) e =
      (do
        let inner ← typeWithin TypeBuilder.tree limit
        build (make inner))) :
    ReadsWithin kept q (typeWithin TypeBuilder.tree (limit + 1)) (e.code :: bytes) tree := by
  refine within_lead e hpq ?_
  rw [he]
  exact h.bind_nil (by rw [hmake]; exact reads_tree tree)

/-- A list of type arguments with its length. -/
theorem within_instantiation {limit : Nat} {generic : SignatureType}
    {arguments : List SignatureType} (hn : arguments ≠ [])
    (hc : Compressed.IsNumber arguments.length)
    (hg : ReadsWithin kept (generic.depth ≤ limit) (typeWithin TypeBuilder.tree limit)
      generic.encode generic)
    (ha : ∀ tree ∈ arguments, ReadsWithin kept (tree.depth ≤ limit)
      (typeWithin TypeBuilder.tree limit) tree.encode tree) :
    ReadsWithin kept (generic.depth ≤ limit ∧ ∀ tree ∈ arguments, tree.depth ≤ limit)
      (typeFrom TypeBuilder.tree (typeWithin TypeBuilder.tree limit) .instantiation)
      (generic.encode ++ (Compressed.encode arguments.length ++ (arguments.map encode).flatten))
      (.instantiation generic arguments) := by
  have hlen : arguments.length ≠ 0 := fun h0 => hn (List.eq_nil_of_length_eq_zero h0)
  have hcounted : ReadsWithin kept (∀ tree ∈ arguments, tree.depth ≤ limit)
      (do
        let count ← read Compressed.number
        if count = 0 then
          Attempt.malformed .noTypeArguments
        else
          let arguments ← Attempt.repeated (typeWithin TypeBuilder.tree limit) count
          build (TypeBuilder.tree.instantiation generic arguments))
      (Compressed.encode arguments.length ++ (arguments.map encode).flatten)
      (.instantiation generic arguments) := by
    refine (reads_read (Compressed.reads_number hc)).bind_or ?_
    rw [if_neg hlen]
    exact (within_repeated ha).bind_nil (reads_tree _)
  exact hg.bind hcounted

/-- **A tree is read back from its bytes, if it is not deeper than the reading may go.** -/
theorem within_typeWithin {tree : SignatureType} (h : tree.WellFormed) (limit : Nat) :
    ReadsWithin kept (tree.depth ≤ limit) (typeWithin TypeBuilder.tree limit) tree.encode tree := by
  -- On the bound: the parts of a tree are read with one visit less.
  induction limit generalizing tree with
  | zero =>
    refine ⟨fun hd => absurd hd (Nat.not_le.2 (depth_pos tree)), fun _ => ?_⟩
    intro cursor state back _ hk
    exact ⟨_, hk, rfl⟩
  | succ limit ih =>
    have hleaf : True ↔ 1 ≤ limit + 1 := by simp
    have hstep : ∀ depth, depth ≤ limit ↔ depth + 1 ≤ limit + 1 :=
      fun depth => Nat.add_le_add_iff_right.symm
    cases tree with
    | primitive type => exact within_lead (.primitive type) hleaf (reads_tree _).readsOr
    | definition token form =>
      have hn : IsNominal form (.definition token form) := ⟨rfl, h.2⟩
      exact (within_nominal h.1 hn limit).congr hleaf
    | reference token form =>
      have hn : IsNominal form (.reference token form) := ⟨rfl, h.2⟩
      exact (within_nominal h.1 hn limit).congr hleaf
    | specification token form =>
      have hn : IsNominal form (.specification token form) := ⟨rfl, h.2⟩
      exact (within_nominal h.1 hn limit).congr hleaf
    | vector element =>
      exact within_wrapped .vector (hstep element.depth) (ih h) rfl rfl
    | byReference element =>
      exact within_wrapped .byReference (hstep element.depth) (ih h) rfl rfl
    | pointer element =>
      exact within_wrapped .pointer (hstep element.depth) (ih h) rfl rfl
    | pinned element =>
      exact within_wrapped .pinned (hstep element.depth) (ih h) rfl rfl
    | array element shape =>
      refine within_lead .array (hstep element.depth) ((ih h.1).bind_reads ?_)
      exact (reads_read (reads_arrayShape h.2)).bind_nil (reads_tree _)
    | instantiation generic arguments =>
      obtain ⟨hg, hn, hc, ha⟩ := h
      rw [allWellFormed_iff] at ha
      rw [encode, encodeEach_eq_map]
      refine within_lead .instantiation ?_
        (within_instantiation hn hc (ih hg) fun tree ht => ih (ha tree ht))
      rw [depth, Nat.add_le_add_iff_right, Nat.max_le, depthOfAll_le]
    | typeParameter index =>
      refine within_lead .typeParameter hleaf (Reads.readsOr ?_)
      exact (reads_read (Compressed.reads_number h)).bind_nil (reads_tree _)
    | methodParameter index =>
      refine within_lead .methodParameter hleaf (Reads.readsOr ?_)
      exact (reads_read (Compressed.reads_number h)).bind_nil (reads_tree _)
    | modified modifier unmodified required =>
      obtain ⟨bytes, he, hm⟩ : ∃ bytes, _ ∧ Reads kept _ bytes modifier := reads_nominal h.1
      rw [encode, he]
      refine within_lead (.modifier required) (hstep unmodified.depth) (hm.bind_or ?_)
      exact (ih h.2).bind_nil (reads_tree _)
    | functionPointer signature =>
      obtain ⟨header, genericCount, requiredCount, returnType, parameters⟩ := signature
      obtain ⟨hc, hr, hp⟩ := h
      rw [allWellFormed_iff] at hp
      have hm := within_methodOf hc (ih hr) (fun tree ht => ih (hp tree ht))
        fun tree ht => unmarked_encode (hp tree ht)
      refine within_lead .functionPointer ?_ (hm.bind_nil (reads_tree _))
      rw [depth, depthOfMethod, Nat.add_le_add_iff_right, Nat.max_le, depthOfAll_le]

/-- **A type is read back from its bytes, whatever follows them, and nothing of what follows is
    read. Only a type in which more than fifty visits lie inside each other is refused.** -/
theorem type_encode {tree : SignatureType} (h : tree.WellFormed) (rest : List UInt8) (state : σ) :
    (tree.depth ≤ 50 →
      type TypeBuilder.tree ({ data := (tree.encode ++ rest).toByteArray }, state) =
        (.ok tree,
          ({ data := (tree.encode ++ rest).toByteArray, pos := tree.encode.length }, state))) ∧
    (50 < tree.depth →
      (type TypeBuilder.tree ({ data := (tree.encode ++ rest).toByteArray }, state)).1 =
        .error (.tooDeep 50)) := by
  -- Nothing that builds a tree changes the state: it is kept equal to the one at the start.
  have hw : ReadsWithin (· = state) _ _ _ tree := within_typeWithin h 50
  have hc := Cursor.sees_start (tree.encode ++ rest)
  refine ⟨fun hd => ?_, fun hd => ?_⟩
  · obtain ⟨state', rfl, hr⟩ := hw.reads hd _ _ _ hc rfl
    rw [type, maxDepth, hr, Cursor.forward, Nat.zero_add]
  · obtain ⟨place, -, he⟩ := hw.ends (Nat.not_le.2 hd) _ _ _ hc rfl
    rw [type, maxDepth, he]
    rfl

/-- A pointer to a generic method that has a second parameter in some calls: an array with a
    lower bound below zero. -/
def variadicPointer : SignatureType :=
  .pointer (.functionPointer {
    header := ⟨0x15⟩, genericCount := 1, requiredCount := 1
    returnType := .primitive .void
    parameters := [
      .vector (.methodParameter 0),
      .array (.reference (Token.ofRow .typeRef 7) .classType)
        { rank := 2, sizes := [200], lowerBounds := [-3] }] })

/-- One pointer more than can be read. -/
def deepPointer : SignatureType :=
  Nat.repeat .pointer 50 (.primitive .int32)

theorem type_variadicPointer :
    (variadicPointer.WellFormed ∧ variadicPointer.depth = 4 ∧
      type TypeBuilder.tree ({ data := (variadicPointer.encode ++ [0x41]).toByteArray }, ()) =
        (.ok variadicPointer,
          ({ data := (variadicPointer.encode ++ [0x41]).toByteArray, pos := 19 }, ()))) ∧
    (deepPointer.WellFormed ∧ deepPointer.depth = 51 ∧
      (type TypeBuilder.tree ({ data := (deepPointer.encode ++ []).toByteArray }, ())).1 =
        .error (.tooDeep 50)) :=
  ⟨⟨by decide, rfl, (type_encode (by decide) [0x41] ()).1 (by decide)⟩,
    by decide, rfl, (type_encode (by decide) [] ()).2 (by decide)⟩

end ApiCensus.Signature
