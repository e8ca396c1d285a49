/-
  The bodies that drafts write, as they are read back.

  * `MethodBody.size_code_lt`: no body that is read has a code of four gigabytes.
  * `MethodBody.Protects`: the clauses of a body catch given types in a given length of code.
  * `MethodBody.drafted`: what is read of a code and the types that it catches.
  * `MethodBody.ofBytes_drafted`: a code without clauses is read back at every length that four
    bytes hold, whereas a clause holds 255 bytes of code and a section twenty clauses.
-/
import ApiCensus.Draft.Body
import ApiCensus.Proofs.Method.Extent
import ApiCensus.Proofs.Method.RoundTrip

namespace ApiCensus

open Attempt

namespace MethodBody

/-! ## What any body has -/

theorem size_code_lt_of_read {cursor stop : Cursor} {body : MethodBody}
    (h : read cursor = (.ok body, stop)) : body.code.size < LittleEndian.bound 4 := by
  have hbound : LittleEndian.bound 4 = 0x100000000 := rfl
  rcases read_cases h with ⟨-, -, lead, hcode⟩ | ⟨codeSize, hsize, _, hcode, -⟩
  · have hlead := lead.toNat_lt
    rw [Cursor.size_of_take hcode]
    omega
  · rwa [Cursor.size_of_take hcode]

/-- The code of a body that is read has a length of four bytes at most. -/
theorem size_code_lt {data : ByteArray} {body : MethodBody} (h : ofBytes data = .ok body) :
    body.code.size < LittleEndian.bound 4 := by
  rw [ofBytes] at h
  split at h
  · cases h
  · exact size_code_lt_of_read (Prod.ext h rfl)

end MethodBody

/-! ## The section of clauses -/

namespace ExceptionClause

theorem fits_catching (length : Nat) (type : Token) : (catching length type).Fits false := by
  have hzero : 0 < LittleEndian.bound 2 := by decide
  have hbyte : byteOf length < LittleEndian.bound 1 := by
    rw [show LittleEndian.bound 1 = 0x100 from rfl, byteOf]
    omega
  exact ⟨hzero, hzero, hbyte, hzero, hbyte, type.value.toNat_lt⟩

theorem reads_catching (length : Nat) (type : Token) :
    Cursor.Reads (read false) (catching length type).encode (catching length type) :=
  reads_read (fits_catching length type)

theorem classToken_catching (length : Nat) (type : Token) :
    (catching length type).classToken = some type := by
  have hvalue : Token.ofNat type.value.toNat = type := by
    cases type
    simp [Token.ofNat]
  rw [classToken, if_pos (by rfl)]
  exact congrArg some hvalue

end ExceptionClause

namespace MethodBody

/-- The number of clauses that a section in its short form holds. -/
def clauseLimit : Nat := 20

theorem reads_sectionHeader {size : Nat} (h : size < LittleEndian.bound 1) :
    Cursor.Reads sectionHeader (LittleEndian.encodeAll [(1, 1), (1, size), (2, 0)])
      (1, false, size) := by
  refine (Cursor.reads_number (by decide)).bind ?_
  rw [if_neg (by decide)]
  refine (Cursor.reads_number h).bind ?_
  exact (Cursor.reads_advance _).bind_nil (Cursor.reads_pure _)

/-- The size that a section claims leaves room for the clauses, or for twenty of them. -/
theorem clauses_of_size (catches : List Token) :
    (byteOf (sectionHeaderSize + ExceptionClause.size false * catches.length) -
      sectionHeaderSize) / ExceptionClause.size false = (catches.take clauseLimit).length := by
  simp only [byteOf, sectionHeaderSize, ExceptionClause.size, clauseLimit, List.length_take]
  simp only [Bool.false_eq_true, if_false]
  omega

theorem clausesAtCursor_section {length : Nat} {catches : List Token} (hne : catches ≠ [])
    {cursor : Cursor} {back : List UInt8}
    (hs : cursor.Sees (clauseSection length catches ++ back)) :
    ∃ stop, clausesAtCursor cursor =
      (.ok ((catches.take clauseLimit).map (ExceptionClause.catching length)), stop) := by
  have hpos := List.length_pos_iff.2 hne
  have hsize : byteOf (sectionHeaderSize + ExceptionClause.size false * catches.length) <
      LittleEndian.bound 1 := by
    rw [show LittleEndian.bound 1 = 0x100 from rfl, byteOf]
    omega
  have hlarge : ¬ byteOf (sectionHeaderSize + ExceptionClause.size false * catches.length) <
      sectionHeaderSize := by
    simp only [byteOf, sectionHeaderSize]
    omega
  have hclause : ∀ type ∈ catches.take clauseLimit, _ :=
    fun type _ => ExceptionClause.reads_catching length type
  have hread := Cursor.reads_repeated_map hclause
  rw [← clauses_of_size] at hread
  rw [clauseSection, ← List.take_append_drop clauseLimit catches, List.flatMap_append,
    List.take_append_drop] at hs
  simp only [List.append_assoc] at hs
  have hstart : Cursor.position cursor = (.ok cursor.pos, cursor) := rfl
  have hheader := reads_sectionHeader hsize cursor _ hs
  have hclauses := hread _ _ hs.forward
  have hrun : clausesAtCursor cursor = clausesWithin (cursor.remaining + 1) cursor := rfl
  rw [hrun, clausesWithin, bind_apply_ok hstart, bind_apply_ok hheader]
  dsimp only
  rw [if_neg hlarge, if_pos (by decide), bind_apply_ok hclauses, if_neg (by decide)]
  exact ⟨_, rfl⟩

/-! ## The whole body -/

/-- The header before a code. -/
def draftHeader : FatHeader :=
  { initializesLocals := false, maxStack := tinyMaxStack, locals := 0, extra := [] }

theorem wellFormed_draftHeader : draftHeader.WellFormed :=
  ⟨by decide, by decide, by decide, by decide⟩

theorem fatHeader_eq {length : Nat} (h : length < LittleEndian.bound 4) (more : Bool) :
    fatHeader more length = draftHeader.encode more length := by
  have hword : wordOf length = length := by
    rw [show LittleEndian.bound 4 = 0x100000000 from rfl] at h
    rw [wordOf]
    omega
  cases more <;> rw [fatHeader, hword] <;> rfl

/-- What is read of a code and the types that it catches. -/
def drafted (code : ByteArray) (catches : List Token) : MethodBody :=
  if catches.isEmpty && code.size < tinyBound then (BodyForm.tiny code.data.toList).body
  else draftHeader.body code
    ((catches.take clauseLimit).map (ExceptionClause.catching code.size))

/-- A code with clauses. -/
theorem read_clauses {code : List UInt8} {catches : List Token}
    (hcode : code.length < LittleEndian.bound 4) (hne : catches ≠ []) {cursor : Cursor}
    {back : List UInt8} (hpos : cursor.pos = 0)
    (hs : cursor.Sees (Alignment.padded 4 (draftHeader.encode true code.length ++ code) ++
      (clauseSection code.length catches ++ back))) :
    ∃ stop, read cursor = (.ok (draftHeader.body code.toByteArray
      ((catches.take clauseLimit).map (ExceptionClause.catching code.length))), stop) := by
  have halign := DataSection.align_padded (by rw [hpos]) hs
  obtain ⟨stop, hclauses⟩ := clausesAtCursor_section hne hs.forward
  rw [List.length_append, length_fatHeader, ← Cursor.forward_forward] at halign
  simp only [Alignment.padded, List.append_assoc] at hs
  have htake := hs.forward
  rw [length_fatHeader] at htake
  refine ⟨stop, ?_⟩
  rw [read_fatHeader wellFormed_draftHeader hcode hpos hs,
    bind_apply_ok (Cursor.reads_take code _ _ htake), if_pos rfl, bind_apply_ok halign,
    bind_apply_ok hclauses]
  rfl

theorem read_encode {code : ByteArray} (hcode : code.size < LittleEndian.bound 4)
    (catches : List Token) {cursor : Cursor} {back : List UInt8} (hpos : cursor.pos = 0)
    (hs : cursor.Sees (encode code catches ++ back)) :
    ∃ stop, read cursor = (.ok (drafted code catches), stop) := by
  obtain ⟨bytes, rfl⟩ : ∃ bytes : List UInt8, code = bytes.toByteArray :=
    ⟨code.data.toList, ByteArray.ext (by simp)⟩
  have hsize : bytes.toByteArray.size = bytes.length := by simp
  have hdata : bytes.toByteArray.data.toList = bytes := by simp
  rw [hsize] at hcode
  simp only [encode, drafted, hsize, hdata] at hs ⊢
  cases catches with
  | nil =>
    by_cases htiny : bytes.length < tinyBound
    · have hbytes : tinyHeader bytes.length ++ bytes = (BodyForm.tiny bytes).encode := by
        rw [tinyHeader, BodyForm.encode, Nat.mul_comm]
        rfl
      simp only [List.isEmpty_nil, htiny, decide_true, Bool.and_self, if_true, hbytes] at hs ⊢
      exact ⟨_, reads_tiny htiny cursor back hs⟩
    · simp only [List.isEmpty_nil, htiny, decide_false, Bool.and_false, Bool.false_eq_true,
        if_false, if_true, Bool.not_true, fatHeader_eq hcode] at hs ⊢
      have hformed : (BodyForm.fat draftHeader bytes []).WellFormed :=
        ⟨wellFormed_draftHeader, hcode, by simp⟩
      exact read_fat hformed hpos hs
  | cons type rest =>
    simp only [List.isEmpty_cons, Bool.false_and, Bool.false_eq_true, if_false, Bool.not_false,
      fatHeader_eq hcode, List.append_assoc] at hs ⊢
    exact read_clauses hcode (by simp) hpos hs

theorem encode_ne_nil (code : ByteArray) (catches : List Token) : encode code catches ≠ [] := by
  unfold encode
  split
  · simp [tinyHeader]
  · have hheader : ∀ more, fatHeader more code.size ≠ [] := fun more => by
      simp [fatHeader, LittleEndian.encodeAll, LittleEndian.encode]
    dsimp only
    split <;> simp [Alignment.padded, hheader]

/-- What a draft writes is read back, whatever follows it. -/
theorem ofBytes_encode_append {code : ByteArray} (hcode : code.size < LittleEndian.bound 4)
    (catches : List Token) (back : List UInt8) :
    ofBytes (encode code catches ++ back).toByteArray = .ok (drafted code catches) := by
  obtain ⟨stop, hread⟩ := read_encode hcode catches rfl
    (Cursor.sees_start (encode code catches ++ back))
  have hsome : (encode code catches ++ back).toByteArray.isEmpty = false := by
    simp [ByteArray.isEmpty, encode_ne_nil]
  rw [ofBytes, hsome, if_neg (by simp), Attempt.result, hread]

/-! ## What the clauses protect -/

/-- The clauses of a body catch exactly these types, in this order, and each one protects the
    first `length` bytes of the code. -/
structure Protects (body : MethodBody) (length : Nat) (types : List Token) : Prop where
  types : body.clauses.map ExceptionClause.classToken = types.map some
  start : ∀ clause ∈ body.clauses, clause.tryOffset = 0
  length : ∀ clause ∈ body.clauses, clause.tryLength = length

theorem code_drafted (code : ByteArray) (catches : List Token) :
    (drafted code catches).code = code := by
  unfold drafted
  split
  · exact ByteArray.ext (by simp [BodyForm.body])
  · rfl

theorem protects_drafted (code : ByteArray) (catches : List Token) :
    (drafted code catches).Protects (min code.size 0xFF) (catches.take clauseLimit) := by
  unfold drafted
  split
  · next htiny =>
    obtain rfl : catches = [] := List.isEmpty_iff.1 (Bool.and_eq_true_iff.1 htiny).1
    exact ⟨rfl, by simp [BodyForm.body], by simp [BodyForm.body]⟩
  · refine ⟨?_, ?_, ?_⟩
    · simp only [FatHeader.body, List.map_map]
      exact List.map_congr_left fun type _ => ExceptionClause.classToken_catching code.size type
    · intro clause hclause
      obtain ⟨type, -, rfl⟩ := List.mem_map.1 hclause
      rfl
    · intro clause hclause
      obtain ⟨type, -, rfl⟩ := List.mem_map.1 hclause
      rfl

/-- Two accounts of the same clauses agree. -/
theorem Protects.unique {body : MethodBody} {length length' : Nat} {types types' : List Token}
    (h : body.Protects length types) (h' : body.Protects length' types') :
    types = types' ∧ (types ≠ [] → length = length') := by
  have htypes : types = types' :=
    (List.map_inj_right fun _ _ => Option.some.inj).1 (h.types.symm.trans h'.types)
  refine ⟨htypes, fun hne => ?_⟩
  have hclauses : body.clauses ≠ [] := by
    intro hnil
    have hmap := h.types
    rw [hnil, List.map_nil, eq_comm, List.map_eq_nil_iff] at hmap
    exact hne hmap
  obtain ⟨clause, hclause⟩ := List.exists_mem_of_ne_nil _ hclauses
  exact (h.length clause hclause).symm.trans (h'.length clause hclause)

/-- **The body of a draft is read back** with its code and a clause for each of the first twenty
    types, which protects the first 255 bytes of the code. So every clause is there and protects
    the whole code just if there are no more types and no more bytes than that, or no types. -/
theorem ofBytes_drafted (code : ByteArray) (catches : List Token) (back : List UInt8) :
    (code.size < 0x100000000 →
      ∃ body, ofBytes (encode code catches ++ back).toByteArray = .ok body ∧ body.code = code ∧
        body.Protects (min code.size 0xFF) (catches.take clauseLimit)) ∧
    ((∃ body, ofBytes (encode code catches ++ back).toByteArray = .ok body ∧ body.code = code ∧
        body.Protects code.size catches) ↔
      code.size < 0x100000000 ∧ (catches = [] ∨ code.size ≤ 0xFF ∧ catches.length ≤ clauseLimit)) := by
  have hread : code.size < 0x100000000 →
      ofBytes (encode code catches ++ back).toByteArray = .ok (drafted code catches) :=
    fun hcode => ofBytes_encode_append hcode catches back
  have hprotects := protects_drafted code catches
  refine ⟨fun hcode => ⟨_, hread hcode, code_drafted code catches, hprotects⟩, ?_, ?_⟩
  · rintro ⟨body, hbody, hbodyCode, hwhole⟩
    have hcode : code.size < 0x100000000 := hbodyCode ▸ size_code_lt hbody
    obtain rfl := Except.ok.inj ((hread hcode).symm.trans hbody)
    obtain ⟨htypes, hlength⟩ := hwhole.unique hprotects
    refine ⟨hcode, ?_⟩
    by_cases hne : catches = []
    · exact Or.inl hne
    · have hlimit := List.length_take_le clauseLimit catches
      rw [← htypes] at hlimit
      have hsize := hlength hne
      exact Or.inr ⟨by omega, hlimit⟩
  · rintro ⟨hcode, rfl | ⟨hshort, hfew⟩⟩
    · refine ⟨_, hread hcode, code_drafted code [], ?_⟩
      have hnone : (drafted code []).clauses = [] := List.map_eq_nil_iff.1 hprotects.types
      exact ⟨hprotects.types, by simp [hnone], by simp [hnone]⟩
    · rw [Nat.min_eq_left hshort, List.take_of_length_le hfew] at hprotects
      exact ⟨_, hread hcode, code_drafted code catches, hprotects⟩

/-- Of 300 bytes of code, a clause protects 255. -/
theorem ofBytes_drafted_long :
    let code := (List.replicate 300 0x2A).toByteArray
    code.size < 0x100000000 ∧
      (∃ body, ofBytes (encode code [⟨0x01000001⟩] ++ [0xFF]).toByteArray = .ok body ∧
        body.code = code ∧ body.Protects 0xFF [⟨0x01000001⟩]) ∧
      ¬ ∃ body, ofBytes (encode code [⟨0x01000001⟩] ++ [0xFF]).toByteArray = .ok body ∧
        body.code = code ∧ body.Protects 300 [⟨0x01000001⟩] := by
  intro code
  have hsize : code.size = 300 := by
    rw [List.size_toByteArray, List.length_replicate]
  have hcode : code.size < 0x100000000 := by omega
  obtain ⟨hread, hwhole⟩ := ofBytes_drafted code [⟨0x01000001⟩] [0xFF]
  rw [hsize] at hread hwhole
  refine ⟨hcode, hread (by omega), fun h => ?_⟩
  rcases (hwhole.1 h).2 with hnone | ⟨hshort, -⟩
  · cases hnone
  · omega

/-- Of 21 types that a code of one byte catches, the last one is not read back. -/
theorem ofBytes_crowdedBody : ∃ body,
    ofBytes (encode ⟨#[0x2A]⟩ (List.replicate 21 ⟨0x01000001⟩)).toByteArray = .ok body ∧
      body.code = ⟨#[0x2A]⟩ ∧ body.clauses.length = 20 := by
  have hcode : (⟨#[0x2A]⟩ : ByteArray).size < LittleEndian.bound 4 := by decide
  have hread := ofBytes_encode_append hcode (List.replicate 21 ⟨0x01000001⟩) []
  rw [List.append_nil] at hread
  exact ⟨_, hread, rfl, rfl⟩

end MethodBody

end ApiCensus
