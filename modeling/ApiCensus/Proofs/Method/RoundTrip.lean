/-
  Method bodies are read as they are written.

  * `DataSection`: a section behind a body; `DataSection.encodeChain` are the bytes of several,
    each of which starts at a multiple of four.
  * `BodyForm`: a tiny body, or a fat one with its sections. `BodyForm.encode` are its bytes
    (ECMA-335, II.25.4), `BodyForm.body` is what they say.
  * `MethodBody.ofBytes_encode`: what follows the bytes of a body makes no difference.
-/
import ApiCensus.Bytes.Alignment
import ApiCensus.Method.Body
import ApiCensus.Proofs.Bytes.Reading

namespace ApiCensus

open Attempt

/-! ## Clauses -/

namespace ExceptionClause

variable {clause : ExceptionClause} {isFat : Bool}

/-- The bytes of a clause in the short or in the long form. -/
def bytes (isFat : Bool) (clause : ExceptionClause) : List UInt8 :=
  LittleEndian.encodeAll
    [(if isFat then 4 else 2, clause.flags), (if isFat then 4 else 2, clause.tryOffset),
     (if isFat then 4 else 1, clause.tryLength), (if isFat then 4 else 2, clause.handlerOffset),
     (if isFat then 4 else 1, clause.handlerLength), (4, clause.classOrFilter)]

/-- Every number of a clause fits its bytes. -/
structure Fits (isFat : Bool) (clause : ExceptionClause) : Prop where
  flags : clause.flags < LittleEndian.bound (if isFat then 4 else 2)
  tryOffset : clause.tryOffset < LittleEndian.bound (if isFat then 4 else 2)
  tryLength : clause.tryLength < LittleEndian.bound (if isFat then 4 else 1)
  handlerOffset : clause.handlerOffset < LittleEndian.bound (if isFat then 4 else 2)
  handlerLength : clause.handlerLength < LittleEndian.bound (if isFat then 4 else 1)
  classOrFilter : clause.classOrFilter < LittleEndian.bound 4

/-- A clause without the flags that mean nothing. -/
def defined (clause : ExceptionClause) : ExceptionClause :=
  { clause with flags := clause.flags % flagBound }

theorem length_bytes : (clause.bytes isFat).length = size isFat := by
  cases isFat <;> simp [bytes, LittleEndian.encodeAll, size]

theorem length_flatMap_bytes (clauses : List ExceptionClause) :
    (clauses.flatMap (bytes isFat)).length = size isFat * clauses.length := by
  induction clauses with
  | nil => rfl
  | cons clause clauses ih =>
    rw [List.flatMap_cons, List.length_append, length_bytes, ih, List.length_cons, Nat.mul_succ,
      Nat.add_comm]

theorem reads_read (h : clause.Fits isFat) :
    Cursor.Reads (read isFat) (clause.bytes isFat) clause.defined := by
  simp only [bytes, LittleEndian.encodeAll, List.flatMap_cons, List.flatMap_nil, List.append_nil]
  refine (Cursor.reads_number h.flags).bind <| (Cursor.reads_number h.tryOffset).bind <|
    (Cursor.reads_number h.tryLength).bind <| (Cursor.reads_number h.handlerOffset).bind <|
      (Cursor.reads_number h.handlerLength).bind <|
        (Cursor.reads_number h.classOrFilter).bind_nil ?_
  exact Cursor.reads_pure clause.defined

end ExceptionClause

/-! ## Sections -/

/-- What a section behind a method body holds. -/
inductive SectionContent where
  | clauses (clauses : List ExceptionClause)
  | other (bytes : List UInt8)

/-- A section behind a method body. -/
structure DataSection where
  isFat : Bool
  /-- The marks for other kinds of data in the first byte. -/
  marks : Nat
  content : SectionContent

namespace DataSection

variable {part : DataSection} {more : Bool}

/-- The clauses that the section holds. -/
def clauses (part : DataSection) : List ExceptionClause :=
  match part.content with
  | .clauses clauses => clauses.map ExceptionClause.defined
  | .other _ => []

/-- The bytes behind the header. -/
def payload (part : DataSection) : List UInt8 :=
  match part.content with
  | .clauses clauses => clauses.flatMap (ExceptionClause.bytes part.isFat)
  | .other bytes => bytes

/-- The section holds clauses. -/
def isTable (part : DataSection) : Bool :=
  match part.content with
  | .clauses _ => true
  | .other _ => false

/-- The number of bytes. -/
def size (part : DataSection) : Nat :=
  MethodBody.sectionHeaderSize + part.payload.length

/-- The first byte: what the section holds, its form, and whether another one follows. -/
def flags (more : Bool) (part : DataSection) : Nat :=
  part.isTable.toNat + 2 * part.marks + 0x40 * part.isFat.toNat + 0x80 * more.toNat

/-- The bytes before the payload. -/
def header (more : Bool) (part : DataSection) : List UInt8 :=
  LittleEndian.encodeAll
    (if part.isFat then [(1, part.flags more), (3, part.size)]
      else [(1, part.flags more), (1, part.size), (2, 0)])

/-- The bytes of a section. -/
def encode (more : Bool) (part : DataSection) : List UInt8 :=
  part.header more ++ part.payload

/-- The marks and the size fit their bytes, and so does every number of the clauses. -/
structure WellFormed (part : DataSection) : Prop where
  marks : part.marks < 0x20
  size : part.size < LittleEndian.bound (if part.isFat then 3 else 1)
  clauses : ∀ clauses, part.content = .clauses clauses → ∀ clause ∈ clauses, clause.Fits part.isFat

/-- The bytes of sections one behind the other, from a multiple of four on. -/
def encodeChain : List DataSection → List UInt8
  | [] => []
  | [part] => part.encode false
  | part :: next :: rest => Alignment.padded 4 (part.encode true) ++ encodeChain (next :: rest)

theorem length_header : (part.header more).length = MethodBody.sectionHeaderSize := by
  unfold header
  split <;> simp [LittleEndian.encodeAll, MethodBody.sectionHeaderSize]

theorem length_encode : (part.encode more).length = part.size := by
  rw [encode, List.length_append, length_header, size]

theorem length_le_encodeChain (parts : List DataSection) :
    parts.length ≤ (encodeChain parts).length := by
  induction parts with
  | nil => exact Nat.le_refl 0
  | cons part rest ih =>
    cases rest with
    | nil =>
      simp only [encodeChain, length_encode, size, MethodBody.sectionHeaderSize,
        List.length_singleton]
      omega
    | cons next rest =>
      simp only [encodeChain, Alignment.padded, List.length_append, length_encode, size,
        MethodBody.sectionHeaderSize, List.length_cons] at ih ⊢
      omega

/-- The marks in the first byte of a section. -/
theorem testBit_flags (h : part.marks < 0x20) (more : Bool) :
    (part.flags more).testBit 0 = part.isTable ∧ (part.flags more).testBit 6 = part.isFat ∧
      (part.flags more).testBit 7 = more ∧ part.flags more < LittleEndian.bound 1 := by
  have hall : ∀ marks < 0x20, ∀ isTable isFat more : Bool,
      let flags := isTable.toNat + 2 * marks + 0x40 * isFat.toNat + 0x80 * more.toNat
      flags.testBit 0 = isTable ∧ flags.testBit 6 = isFat ∧ flags.testBit 7 = more ∧
        flags < LittleEndian.bound 1 := by decide
  exact hall part.marks h part.isTable part.isFat more

theorem reads_header (h : part.WellFormed) : Cursor.Reads MethodBody.sectionHeader
    (part.header more) (part.flags more, part.isFat, part.size) := by
  obtain ⟨-, hfat, -, hflags⟩ := testBit_flags h.marks more
  have hsize := h.size
  unfold header MethodBody.sectionHeader
  cases hform : part.isFat with
  | true =>
    rw [hform] at hfat hsize
    refine (Cursor.reads_number hflags).bind ?_
    rw [if_pos hfat]
    exact (Cursor.reads_number hsize).map _
  | false =>
    rw [hform] at hfat hsize
    refine (Cursor.reads_number hflags).bind ?_
    rw [if_neg (by simp [hfat])]
    refine (Cursor.reads_number hsize).bind ?_
    exact (Cursor.reads_advance _).bind_nil (Cursor.reads_pure _)

/-- What the section holds is read: its clauses, or nothing. -/
theorem payload_read (h : part.WellFormed) {cursor : Cursor} {back : List UInt8}
    (hs : cursor.Sees (part.payload ++ back)) : ∃ place : Cursor, place.data = cursor.data ∧
      (if part.isTable then repeated (ExceptionClause.read part.isFat)
          ((part.size - MethodBody.sectionHeaderSize) / ExceptionClause.size part.isFat)
        else pure []) cursor = (.ok part.clauses, place) := by
  unfold isTable clauses size payload at *
  cases hcontent : part.content with
  | clauses clauses =>
    simp only [hcontent, if_true] at hs ⊢
    have hsize : 0 < ExceptionClause.size part.isFat := by cases part.isFat <;> decide
    have hr := Cursor.reads_repeated_map fun clause hc =>
      ExceptionClause.reads_read (h.clauses clauses hcontent clause hc)
    rw [Nat.add_sub_cancel_left, ExceptionClause.length_flatMap_bytes,
      Nat.mul_div_cancel_left _ hsize]
    refine ⟨_, ?_, hr cursor back hs⟩
    rfl
  | other bytes => exact ⟨cursor, rfl, rfl⟩

/-- Behind bytes that start at a multiple of four, the next multiple of four is behind their
    padding. -/
theorem align_padded {bytes back : List UInt8} {cursor : Cursor} (haligned : cursor.pos % 4 = 0)
    (hs : cursor.Sees (Alignment.padded 4 bytes ++ back)) :
    Cursor.align 4 (cursor.forward bytes.length) =
      (.ok (), cursor.forward (Alignment.padded 4 bytes).length) := by
  have hl := hs.length_add
  have hpadding : (Alignment.padding 4 bytes.length).length =
      (4 - (cursor.pos + bytes.length) % 4) % 4 := by
    simp only [Alignment.padding, Alignment.roundUp, Alignment.roundDown, List.length_replicate]
    omega
  simp only [Alignment.padded, List.length_append, hpadding] at hl ⊢
  rw [Cursor.align, Cursor.advance, if_pos (by simp only [Cursor.forward]; omega)]
  simp only [Cursor.forward, Nat.add_assoc]

theorem length_padded_mod (bytes : List UInt8) : (Alignment.padded 4 bytes).length % 4 = 0 := by
  simp only [Alignment.padded, Alignment.padding, Alignment.roundUp, Alignment.roundDown,
    List.length_append, List.length_replicate]
  omega

/-- One section, and what is done behind it. -/
theorem clausesWithin_part (h : part.WellFormed) {cursor : Cursor} {back : List UInt8}
    (hs : cursor.Sees (part.encode more ++ back)) (sections : Nat) :
    ∃ place : Cursor, place.data = cursor.data ∧ MethodBody.clausesWithin (sections + 1) cursor =
      (if more then do
          Cursor.seek (cursor.pos + part.size)
          Cursor.align 4
          let rest ← MethodBody.clausesWithin sections
          pure (part.clauses ++ rest)
        else pure part.clauses) place := by
  obtain ⟨htable, -, hmore, -⟩ := testBit_flags h.marks more
  rw [encode, List.append_assoc] at hs
  obtain ⟨place, hdata, hread⟩ := payload_read h hs.forward
  refine ⟨place, hdata, ?_⟩
  have hstart : Cursor.position cursor = (.ok cursor.pos, cursor) := rfl
  have hsize : ¬ part.size < MethodBody.sectionHeaderSize := by simp [size]
  rw [MethodBody.clausesWithin, bind_apply_ok hstart, bind_apply_ok (reads_header h cursor _ hs)]
  simp only [htable, hmore, if_neg hsize]
  cases htable : part.isTable with
  | true =>
    rw [htable, if_pos rfl] at hread
    rw [if_pos rfl, bind_apply_ok hread]
  | false =>
    rw [htable, if_neg (by simp)] at hread
    rw [if_neg (by simp), bind_apply_ok hread]

/-- The sections of a chain are read one behind the other. -/
theorem clausesWithin_encodeChain {parts : List DataSection} (hne : parts ≠ [])
    (hw : ∀ part ∈ parts, part.WellFormed) {cursor : Cursor} {back : List UInt8}
    (haligned : cursor.pos % 4 = 0) (hs : cursor.Sees (encodeChain parts ++ back))
    {sections : Nat} (hn : parts.length ≤ sections) :
    ∃ stop, MethodBody.clausesWithin sections cursor = (.ok (parts.flatMap clauses), stop) := by
  induction parts generalizing cursor sections with
  | nil => exact absurd rfl hne
  | cons part rest ih =>
    obtain ⟨sections, rfl⟩ : ∃ n, sections = n + 1 := ⟨sections - 1, by simp at hn; omega⟩
    have hpart := hw part (by simp)
    cases rest with
    | nil =>
      obtain ⟨place, -, hrun⟩ := clausesWithin_part hpart hs sections
      exact ⟨place, by rw [hrun]; simp⟩
    | cons next rest =>
      rw [encodeChain, List.append_assoc] at hs
      have hbytes := hs
      rw [Alignment.padded, List.append_assoc] at hbytes
      obtain ⟨place, hdata, hrun⟩ := clausesWithin_part hpart hbytes sections
      have hseek : Cursor.seek (cursor.pos + part.size) place =
          (.ok (), cursor.forward part.size) := by
        have hl := hbytes.length_add
        rw [length_encode] at hl
        rw [Cursor.seek, hdata, if_pos (by omega)]
        simp [Cursor.forward, ← hdata]
      have halign := align_padded haligned hs
      rw [length_encode] at halign
      have hnext : (cursor.forward (Alignment.padded 4 (part.encode true)).length).pos % 4 = 0 := by
        have hp := length_padded_mod (part.encode true)
        simp only [Cursor.forward]
        omega
      have hleft : (next :: rest).length ≤ sections := by simpa using hn
      obtain ⟨stop, hrest⟩ := ih (by simp) (fun other ho => hw other (by simp [ho])) hnext
        hs.forward hleft
      refine ⟨stop, ?_⟩
      rw [hrun, if_pos rfl, bind_apply_ok hseek, bind_apply_ok halign, bind_apply_ok hrest]
      simp

theorem clausesAtCursor_encodeChain {parts : List DataSection} (hne : parts ≠ [])
    (hw : ∀ part ∈ parts, part.WellFormed) {cursor : Cursor} {back : List UInt8}
    (haligned : cursor.pos % 4 = 0) (hs : cursor.Sees (encodeChain parts ++ back)) :
    ∃ stop, MethodBody.clausesAtCursor cursor = (.ok (parts.flatMap clauses), stop) := by
  have hn : parts.length ≤ cursor.remaining + 1 := by
    have hl := hs.length_add
    have hp := length_le_encodeChain parts
    rw [Cursor.remaining]
    omega
  exact clausesWithin_encodeChain hne hw haligned hs hn

end DataSection

/-! ## Bodies -/

/-- A header of the long form. -/
structure FatHeader where
  initializesLocals : Bool
  maxStack : Nat
  locals : Nat
  /-- The bytes of the header behind the first twelve. -/
  extra : List UInt8

namespace FatHeader

/-- The number of bytes. -/
def size (header : FatHeader) : Nat :=
  MethodBody.fatHeaderSize + header.extra.length

/-- The form of the header, whether sections follow, and its length in units of four bytes. -/
def flags (header : FatHeader) (more : Bool) : Nat :=
  3 + 8 * more.toNat + 0x10 * header.initializesLocals.toNat + 0x1000 * (header.size / 4)

/-- The bytes of a header before a code of the given length. -/
def encode (header : FatHeader) (more : Bool) (length : Nat) : List UInt8 :=
  LittleEndian.encodeAll
    [(2, header.flags more), (2, header.maxStack), (4, length), (4, header.locals)] ++ header.extra

/-- The body that has the header. -/
def body (header : FatHeader) (code : ByteArray) (clauses : List ExceptionClause) : MethodBody :=
  { code, headerSize := header.size, locals := header.locals, maxStack := header.maxStack
    isFat := true, initializesLocals := header.initializesLocals, clauses }

/-- The header has up to fifteen units of four bytes, and its numbers fit their bytes. -/
structure WellFormed (header : FatHeader) : Prop where
  aligned : header.size % 4 = 0
  size : header.size < 0x40
  maxStack : header.maxStack < LittleEndian.bound 2
  locals : header.locals < LittleEndian.bound 4

end FatHeader

/-- A method body as it is written. -/
inductive BodyForm where
  | tiny (code : List UInt8)
  | fat (header : FatHeader) (code : List UInt8) (sections : List DataSection)

namespace BodyForm

/-- The bytes of a body. The sections start at a multiple of four. -/
def encode : BodyForm → List UInt8
  | .tiny code => UInt8.ofNat (4 * code.length + 2) :: code
  | .fat header code sections =>
    let front := header.encode (!sections.isEmpty) code.length ++ code
    if sections.isEmpty then front
    else Alignment.padded 4 front ++ DataSection.encodeChain sections

theorem encode_ne_nil (form : BodyForm) : form.encode ≠ [] := by
  cases form with
  | tiny code => simp [encode]
  | fat header code sections =>
    have hfront : header.encode (!sections.isEmpty) code.length ≠ [] := by
      simp [FatHeader.encode, LittleEndian.encodeAll, LittleEndian.encode]
    simp only [encode, Alignment.padded]
    split <;> simp [hfront]

/-- What the bytes of a body say. -/
def body : BodyForm → MethodBody
  | .tiny code =>
    { code := code.toByteArray, headerSize := 1, locals := 0, maxStack := 8, isFat := false,
      initializesLocals := false, clauses := [] }
  | .fat header code sections =>
    header.body code.toByteArray (sections.flatMap DataSection.clauses)

/-- The code of a tiny body has less than 64 bytes, and what a fat body holds fits its bytes. -/
def WellFormed : BodyForm → Prop
  | .tiny code => code.length < 64
  | .fat header code sections =>
    header.WellFormed ∧ code.length < LittleEndian.bound 4 ∧ ∀ part ∈ sections, part.WellFormed

end BodyForm

namespace MethodBody

theorem reads_tiny {code : List UInt8} (h : code.length < 64) :
    Cursor.Reads read (BodyForm.tiny code).encode (BodyForm.tiny code).body := by
  have hlead : (UInt8.ofNat (4 * code.length + 2)).toNat = 4 * code.length + 2 := by
    rw [UInt8.toNat_ofNat']
    omega
  have hform : (UInt8.ofNat (4 * code.length + 2)).toNat % 4 = 2 := by omega
  have hlength : (UInt8.ofNat (4 * code.length + 2)).toNat / 4 = code.length := by omega
  refine Cursor.Reads.peek ?_
  simp only [hform, hlength]
  refine (Cursor.reads_advance [_]).bind ?_
  exact (Cursor.reads_take code).map _

section
variable {header : FatHeader}

/-- What the flags of a fat header say. -/
theorem fatFlags (h : header.WellFormed) (more : Bool) :
    header.flags more % 4 = 3 ∧ header.flags more / 0x1000 * 4 = header.size ∧
      (header.flags more).testBit 3 = more ∧
      (header.flags more).testBit 4 = header.initializesLocals ∧
      header.flags more < LittleEndian.bound 2 := by
  have hall : ∀ units < 0x10, ∀ more initializes : Bool,
      let flags := 3 + 8 * more.toNat + 0x10 * initializes.toNat + 0x1000 * units
      flags % 4 = 3 ∧ flags / 0x1000 = units ∧ flags.testBit 3 = more ∧
        flags.testBit 4 = initializes ∧ flags < LittleEndian.bound 2 := by decide
  have hsize := h.size
  have haligned := h.aligned
  obtain ⟨hform, hunits, hrest⟩ :=
    hall (header.size / 4) (by omega) more header.initializesLocals
  refine ⟨hform, ?_, hrest⟩
  rw [FatHeader.flags, hunits]
  omega

theorem length_fatHeader (more : Bool) (length : Nat) :
    (header.encode more length).length = header.size := by
  simp only [FatHeader.encode, LittleEndian.encodeAll, List.flatMap_cons, List.flatMap_nil,
    List.length_append, LittleEndian.length_encode, List.length_nil, FatHeader.size, fatHeaderSize]

/-- A fat header, and what is read behind it. -/
theorem read_fatHeader (h : header.WellFormed) {more : Bool} {length : Nat}
    (hlength : length < LittleEndian.bound 4) {cursor : Cursor} {back : List UInt8}
    (hpos : cursor.pos = 0) (hs : cursor.Sees (header.encode more length ++ back)) :
    read cursor = (do
      let code ← Cursor.take length
      if more then do
        Cursor.align 4
        let clauses ← clausesAtCursor
        pure (header.body code clauses)
      else pure (header.body code [])) (cursor.forward header.size) := by
  obtain ⟨hform, hunits, hmore, hinitializes, hflags⟩ := fatFlags h more
  have hend := hs.length_add
  rw [length_fatHeader] at hend
  simp only [FatHeader.encode, LittleEndian.encodeAll, List.flatMap_cons, List.flatMap_nil,
    List.append_nil, List.append_assoc] at hs
  have hlead : Cursor.peek cursor = (.ok (UInt8.ofNat (header.flags more)), cursor) := by
    rw [LittleEndian.encode, List.cons_append] at hs
    rw [Cursor.peek, hs.getElem?]
  have hfat : (UInt8.ofNat (header.flags more)).toNat % 4 = 3 := by
    rw [UInt8.toNat_ofNat']
    omega
  obtain ⟨hf, hs⟩ := hs.number_bind hflags
  obtain ⟨hm, hs⟩ := hs.number_bind h.maxStack
  obtain ⟨hl, hs⟩ := hs.number_bind hlength
  obtain ⟨hv, hs⟩ := hs.number_bind h.locals
  have hseek : Cursor.seek header.size ((((cursor.forward 2).forward 2).forward 4).forward 4) =
      (.ok (), cursor.forward header.size) := by
    rw [Cursor.seek, if_pos (by simp only [Cursor.forward]; omega)]
    simp only [Cursor.forward, hpos, Nat.zero_add]
  rw [read, bind_apply_ok hlead]
  simp only [hfat]
  rw [hf, hm, hl, hv, hunits, if_neg (by simp [FatHeader.size]), bind_apply_ok hseek]
  simp only [hmore, hinitializes]
  rfl

theorem read_fat {code : List UInt8} {sections : List DataSection}
    (h : (BodyForm.fat header code sections).WellFormed) {cursor : Cursor} {back : List UInt8}
    (hpos : cursor.pos = 0)
    (hs : cursor.Sees ((BodyForm.fat header code sections).encode ++ back)) :
    ∃ stop, read cursor = (.ok (BodyForm.fat header code sections).body, stop) := by
  obtain ⟨hheader, hlength, hsections⟩ := h
  cases sections with
  | nil =>
    simp only [BodyForm.encode, List.isEmpty_nil, if_true, List.append_assoc] at hs
    have hcode := hs.forward
    rw [length_fatHeader] at hcode
    refine ⟨(cursor.forward header.size).forward code.length, ?_⟩
    rw [read_fatHeader hheader hlength hpos hs, bind_apply_ok (Cursor.reads_take code _ _ hcode)]
    rfl
  | cons part rest =>
    have hne : part :: rest ≠ [] := by simp
    simp only [BodyForm.encode, List.isEmpty_cons, Bool.not_false, Bool.false_eq_true, if_false,
      List.append_assoc] at hs
    have halign := DataSection.align_padded (by rw [hpos]) hs
    have hchain := hs.forward
    obtain ⟨stop, hclauses⟩ := DataSection.clausesAtCursor_encodeChain hne hsections
      (by simpa [Cursor.forward, hpos] using DataSection.length_padded_mod _) hchain
    rw [List.length_append, length_fatHeader, ← Cursor.forward_forward] at halign
    simp only [Alignment.padded, List.append_assoc] at hs
    have hcode := hs.forward
    rw [length_fatHeader] at hcode
    refine ⟨stop, ?_⟩
    rw [read_fatHeader hheader hlength hpos hs, bind_apply_ok (Cursor.reads_take code _ _ hcode),
      if_pos rfl, bind_apply_ok halign, bind_apply_ok hclauses]
    rfl

end

/-- **The bytes of a body are read as what they say, whatever follows them.** -/
theorem ofBytes_encode {form : BodyForm} (h : form.WellFormed) (back : List UInt8) :
    ofBytes (form.encode ++ back).toByteArray = .ok form.body := by
  have hs := Cursor.sees_start (form.encode ++ back)
  have hread : ∃ stop, read { data := (form.encode ++ back).toByteArray } =
      (.ok form.body, stop) := by
    cases form with
    | tiny code => exact ⟨_, reads_tiny h _ back hs⟩
    | fat header code sections => exact read_fat h rfl hs
  obtain ⟨stop, hread⟩ := hread
  have hsome : (form.encode ++ back).toByteArray.isEmpty = false := by
    simp [ByteArray.isEmpty, form.encode_ne_nil]
  rw [ofBytes, hsome, if_neg (by simp), Attempt.result, hread]

/-- A body with a header of sixteen bytes and three sections: a short one with a clause, data of
    another kind that ends off the multiples of four, and a long one with two clauses. -/
def chained : BodyForm :=
  .fat { initializesLocals := true, maxStack := 2, locals := 0x11000001, extra := [1, 2, 3, 4] }
    [0x16, 0x26, 0x2A]
    [⟨false, 0, .clauses [⟨0x12, 0, 1, 1, 2, 0x01000005⟩]⟩,
     ⟨true, 1, .other [7, 7, 7, 7, 7]⟩,
     ⟨true, 0, .clauses [⟨1, 0, 70000, 70000, 5, 3⟩, ⟨4, 0, 1, 1, 1, 0⟩]⟩]

theorem wellFormed_chained : chained.WellFormed := by
  have hshort : ∀ clause ∈ [(⟨0x12, 0, 1, 1, 2, 0x01000005⟩ : ExceptionClause)],
      clause.Fits false := by
    rintro clause (_ | ⟨_, ⟨⟩⟩)
    exact ⟨by decide, by decide, by decide, by decide, by decide, by decide⟩
  have hlong : ∀ clause ∈ [(⟨1, 0, 70000, 70000, 5, 3⟩ : ExceptionClause), ⟨4, 0, 1, 1, 1, 0⟩],
      clause.Fits true := by
    rintro clause (_ | ⟨_, _ | ⟨_, ⟨⟩⟩⟩)
    all_goals exact ⟨by decide, by decide, by decide, by decide, by decide, by decide⟩
  refine ⟨⟨by decide, by decide, by decide, by decide⟩, by decide, ?_⟩
  rintro part (_ | ⟨_, _ | ⟨_, _ | ⟨_, ⟨⟩⟩⟩⟩)
  · exact ⟨by decide, by decide, by rintro clauses ⟨⟩; exact hshort⟩
  · exact ⟨by decide, by decide, by rintro clauses ⟨⟩⟩
  · exact ⟨by decide, by decide, by rintro clauses ⟨⟩; exact hlong⟩

theorem ofBytes_encode_chained :
    chained.WellFormed ∧ ∃ body,
      ofBytes (chained.encode ++ [0xFF, 0xFF]).toByteArray = .ok body ∧ body.headerSize = 16 ∧
      body.code = ⟨#[0x16, 0x26, 0x2A]⟩ ∧ body.clauses =
        [⟨2, 0, 1, 1, 2, 0x01000005⟩, ⟨1, 0, 70000, 70000, 5, 3⟩, ⟨4, 0, 1, 1, 1, 0⟩] :=
  ⟨wellFormed_chained, chained.body, ofBytes_encode wellFormed_chained _, rfl, rfl, rfl⟩

end MethodBody

end ApiCensus
