/-
  How far a method body reaches.

  * `MethodBody.sectionAtCursor`: what is done about one section behind the code;
    `MethodBody.sectionsThen` goes on with a given loop, and nothing bounds the rounds.
  * `MethodBody.sectionAtCursor_eq_ok`: every section goes forward by its header and by twelve
    bytes or more for each of its clauses.
  * `MethodBody.eq_sectionsThen_iff`: so the loop comes to an end, wherever it starts.
  * `MethodBody.ofBytes_append`: a body is decoded from its own bytes.
-/
import ApiCensus.Method.Body
import ApiCensus.Proofs.Bytes.Locality

namespace ApiCensus

open Attempt

/-! ## Clauses -/

namespace ExceptionClause

theorem spans_read (isFat : Bool) : Cursor.Spans (read isFat) (size isFat) := by
  have hnumbers : ∀ long short, Cursor.Spans (Cursor.number (if isFat then long else short))
      (if isFat then long else short) := fun _ _ => Cursor.spans_number _
  have hspans := (hnumbers 4 2).bind fun flags => (hnumbers 4 2).bind fun tryOffset =>
    (hnumbers 4 1).bind fun tryLength => (hnumbers 4 2).bind fun handlerOffset =>
      (hnumbers 4 1).bind fun handlerLength => (Cursor.spans_number 4).bind fun classOrFilter =>
        Cursor.spans_pure ({ flags := flags % flagBound, tryOffset, tryLength, handlerOffset,
                             handlerLength, classOrFilter } : ExceptionClause)
  cases isFat <;> exact hspans

theorem rereads_read (isFat : Bool) : Cursor.Rereads (read isFat) := by
  refine (Cursor.rereads_number _).bind fun _ => (Cursor.rereads_number _).bind fun _ => ?_
  refine (Cursor.rereads_number _).bind fun _ => (Cursor.rereads_number _).bind fun _ => ?_
  refine (Cursor.rereads_number _).bind fun _ => (Cursor.rereads_number _).bind fun _ => ?_
  exact Cursor.rereads_pure _

theorem twelve_le_size (isFat : Bool) : 12 ≤ size isFat := by
  cases isFat <;> decide

end ExceptionClause

namespace MethodBody

/-! ## Sections -/

/-- The clauses that a section with a given header holds. -/
def clausesBehind (flags : Nat) (isFat : Bool) (size : Nat) :
    Attempt Cursor (List ExceptionClause) :=
  if flags.testBit 0 then
    Attempt.repeated (ExceptionClause.read isFat)
      ((size - sectionHeaderSize) / ExceptionClause.size isFat)
  else
    pure []

/-- The clauses of the section at the cursor, and whether another one follows. Then the cursor
    stands before that one. -/
def sectionAtCursor : Attempt Cursor (List ExceptionClause × Bool) := do
  let start ← Cursor.position
  let (flags, isFat, size) ← sectionHeader
  if size < sectionHeaderSize then
    Attempt.malformed (.dataSectionSize size)
  else
    let clauses ← clausesBehind flags isFat size
    if flags.testBit 7 then
      Cursor.seek (start + size)
      Cursor.align 4
      pure (clauses, true)
    else
      pure (clauses, false)

/-- The clauses of the section at the cursor, and those that `behind` finds if more sections
    follow. -/
def sectionsThen (behind : Attempt Cursor (List ExceptionClause)) :
    Attempt Cursor (List ExceptionClause) := do
  let here ← sectionAtCursor
  if here.2 then
    let rest ← behind
    pure (here.1 ++ rest)
  else
    pure here.1

/-- One round of the loop over sections. -/
theorem clausesWithin_succ (sections : Nat) :
    clausesWithin (sections + 1) = sectionsThen (clausesWithin sections) := by
  rw [clausesWithin, sectionsThen, sectionAtCursor]
  simp only [bind_assoc]
  congr 1
  funext start
  congr 1
  funext header
  simp only [clausesBehind]
  split
  · rfl
  split
  all_goals
    simp only [bind_assoc]
    congr 1
    funext clauses
    split <;> simp only [bind_assoc, pure_bind, if_true, Bool.false_eq_true, if_false]

theorem spans_sectionHeader : Cursor.Spans sectionHeader sectionHeaderSize := by
  have hflags : Cursor.Spans (Cursor.number 1) 1 := Cursor.spans_number 1
  refine hflags.bind fun flags => (?_ : Cursor.Spans _ 3)
  refine Cursor.Spans.ite ?_ ?_
  · exact (Cursor.spans_number 3).bind fun size => Cursor.spans_pure _
  · exact (Cursor.spans_number 1).bind fun size =>
      (Cursor.spans_advance 2).bind fun _ => Cursor.spans_pure _

theorem rereads_sectionHeader : Cursor.Rereads sectionHeader := by
  refine (Cursor.rereads_number 1).bind fun flags => Cursor.Rereads.ite ?_ ?_
  · exact (Cursor.rereads_number 3).bind fun size => Cursor.rereads_pure _
  · exact (Cursor.rereads_number 1).bind fun size =>
      (Cursor.rereads_advance 2).bind fun _ => Cursor.rereads_pure _

section
variable {cursor stop : Cursor} {here clauses : List ExceptionClause} {more : Bool}

theorem inside_of_sectionHeader {header : Nat × Bool × Nat}
    (h : sectionHeader cursor = (.ok header, stop)) : cursor.pos ≤ cursor.data.size := by
  obtain ⟨flags, _, hflags, -⟩ := bind_eq_ok h
  obtain ⟨_, -, -, hpasses⟩ := Cursor.passes_of_number hflags
  exact hpasses.1.inside

/-- The clauses of a section lie behind its header, inside the size that it claims. -/
theorem clausesBehind_eq_ok {flags size : Nat} {isFat : Bool}
    (hin : cursor.pos ≤ cursor.data.size)
    (h : clausesBehind flags isFat size cursor = (.ok clauses, stop)) :
    12 * clauses.length ≤ size - sectionHeaderSize ∧
      ∃ bytes, 12 * clauses.length ≤ bytes.length ∧ cursor.Passes bytes stop := by
  rw [clausesBehind] at h
  split at h
  · obtain ⟨hlength, bytes, hbytes, hpasses⟩ := (ExceptionClause.spans_read isFat).repeated hin h
    have hclauses : 12 * clauses.length ≤ ExceptionClause.size isFat * clauses.length :=
      Nat.mul_le_mul_right _ (ExceptionClause.twelve_le_size isFat)
    have hclaimed := Nat.mul_div_le (size - sectionHeaderSize) (ExceptionClause.size isFat)
    rw [← hlength] at hbytes hclaimed
    exact ⟨by omega, bytes, by omega, hpasses⟩
  · obtain ⟨⟨⟩⟩ := h
    exact ⟨Nat.zero_le _, [], Nat.le_refl 0, .refl hin⟩

/-- A section goes forward, by its header and by twelve bytes or more for each clause. -/
theorem sectionAtCursor_eq_ok (h : sectionAtCursor cursor = (.ok (here, more), stop)) :
    stop.data = cursor.data ∧ stop.pos ≤ cursor.data.size ∧
      cursor.pos + sectionHeaderSize + 12 * here.length ≤ stop.pos := by
  obtain ⟨_, _, ⟨⟩, h⟩ := bind_eq_ok h
  obtain ⟨⟨flags, isFat, size⟩, first, hheader, h⟩ := bind_eq_ok h
  obtain ⟨header, hlength, hpasses⟩ := spans_sectionHeader cursor _ first
    (inside_of_sectionHeader hheader) hheader
  have hdata := hpasses.data_eq
  have hfirst := hpasses.pos_eq
  dsimp only at h
  split at h
  · cases h
  obtain ⟨clauses, behind, hclauses, h⟩ := bind_eq_ok h
  obtain ⟨hclaimed, bytes, hbytes, hpasses'⟩ := clausesBehind_eq_ok hpasses.inside hclauses
  have hdata' := hpasses'.data_eq.trans hdata
  have hbehind := hpasses'.pos_eq
  split at h
  · -- Another section follows where this one claims to end.
    obtain ⟨_, _, hseek, h⟩ := bind_eq_ok h
    obtain ⟨_, next, halign, h⟩ := bind_eq_ok h
    obtain ⟨⟨⟩⟩ := h
    obtain ⟨-, rfl⟩ := Cursor.seek_eq_ok hseek
    obtain ⟨gap, -, hpasses''⟩ := Cursor.passes_of_advance halign
    have hdata'' : stop.data = cursor.data := hpasses''.data_eq.trans hdata'
    have hstop : stop.pos = cursor.pos + size + gap.length := hpasses''.pos_eq
    have hinside := hpasses''.inside
    rw [hdata''] at hinside
    exact ⟨hdata'', hinside, by omega⟩
  · obtain ⟨⟨⟩⟩ := h
    have hinside := hpasses'.inside
    rw [hdata'] at hinside
    exact ⟨hdata', hinside, by omega⟩

/-- No more than one clause for twelve bytes is found, whatever the bound. -/
theorem length_clausesWithin {sections : Nat}
    (h : clausesWithin sections cursor = (.ok clauses, stop)) :
    cursor.pos + 12 * clauses.length ≤ cursor.data.size := by
  induction sections generalizing cursor clauses with
  | zero => cases h
  | succ sections ih =>
    rw [clausesWithin_succ] at h
    obtain ⟨⟨here, more⟩, place, hhere, h⟩ := bind_eq_ok h
    obtain ⟨hdata, hinside, hforward⟩ := sectionAtCursor_eq_ok hhere
    dsimp only at h
    split at h
    · obtain ⟨rest, _, hrest, h⟩ := bind_eq_ok h
      obtain ⟨⟨⟩⟩ := h
      have hlength := ih hrest
      rw [hdata] at hlength
      rw [List.length_append]
      omega
    · obtain ⟨⟨⟩⟩ := h
      omega

end

/-! ## The loop over sections -/

/-- What a round does depends only on what is done further on in the data. -/
theorem sectionsThen_congr {loop other : Attempt Cursor (List ExceptionClause)} {cursor : Cursor}
    (h : ∀ place : Cursor, place.remaining < cursor.remaining → loop place = other place) :
    sectionsThen loop cursor = sectionsThen other cursor := by
  rw [sectionsThen, sectionsThen, bind_apply, bind_apply]
  rcases hhere : sectionAtCursor cursor with ⟨fault | ⟨here, more⟩, place⟩
  · rfl
  cases more with
  | false => rfl
  | true =>
    obtain ⟨hdata, hinside, hforward⟩ := sectionAtCursor_eq_ok hhere
    rw [sectionHeaderSize] at hforward
    have hless : place.remaining < cursor.remaining := by
      rw [Cursor.remaining, Cursor.remaining, hdata]
      omega
    simp only [if_true]
    rw [bind_apply, bind_apply, h place hless]

/-- A bound beyond the number of bytes that are left makes no difference. -/
theorem clausesWithin_eq {sections : Nat} {cursor : Cursor} (h : cursor.remaining < sections) :
    clausesWithin sections cursor = clausesAtCursor cursor := by
  have hsame : ∀ first second : Nat, ∀ cursor : Cursor, cursor.remaining < first →
      cursor.remaining < second → clausesWithin first cursor = clausesWithin second cursor := by
    intro first
    induction first with
    | zero => exact fun _ _ h => absurd h (Nat.not_lt_zero _)
    | succ first ih =>
      intro second cursor hfirst hsecond
      obtain ⟨second, rfl⟩ := Nat.exists_eq_add_of_lt hsecond
      rw [clausesWithin_succ, clausesWithin_succ]
      exact sectionsThen_congr fun place hless => ih _ place (by omega) (by omega)
  rw [hsame sections (cursor.remaining + 1) cursor h (Nat.lt_succ_self _)]
  rfl

/-- **The loop over sections comes to an end, wherever it starts: what its rounds demand of a loop
    is met by one loop only, and that is the one with a bound.** -/
theorem eq_sectionsThen_iff (loop : Attempt Cursor (List ExceptionClause)) :
    loop = sectionsThen loop ↔ loop = clausesAtCursor := by
  have hbounded : clausesAtCursor = sectionsThen clausesAtCursor := by
    funext cursor
    show clausesWithin (cursor.remaining + 1) cursor = _
    rw [clausesWithin_succ]
    exact sectionsThen_congr fun place hless => clausesWithin_eq hless
  refine ⟨fun hloop => ?_, fun hloop => hloop ▸ hbounded⟩
  funext cursor
  induction hleft : cursor.remaining using Nat.strongRecOn generalizing cursor with
  | ind left ih =>
    rw [hloop, hbounded]
    exact sectionsThen_congr fun place hless => ih place.remaining (hleft ▸ hless) place rfl

/-! ## Bodies -/

theorem local_clausesBehind (flags : Nat) (isFat : Bool) (size : Nat) :
    Cursor.Local (clausesBehind flags isFat size) := by
  refine Cursor.Local.ite ?_ (Cursor.local_pure [])
  exact ((ExceptionClause.rereads_read isFat).repeated _).isLocal

theorem local_sectionAtCursor : Cursor.Local sectionAtCursor := by
  refine Cursor.local_position.bind fun start => ?_
  refine rereads_sectionHeader.isLocal.bind fun header => ?_
  refine (Cursor.local_throw _).ite ((local_clausesBehind _ _ _).bind fun clauses => ?_)
  refine Cursor.Local.ite ?_ (Cursor.local_pure _)
  exact (Cursor.local_seek _).bind fun _ => (Cursor.local_align 4).bind fun _ =>
    Cursor.local_pure _

theorem local_clausesWithin (sections : Nat) : Cursor.Local (clausesWithin sections) := by
  induction sections with
  | zero => exact Cursor.local_throw _
  | succ sections ih =>
    rw [clausesWithin_succ]
    refine local_sectionAtCursor.bind fun here => Cursor.Local.ite ?_ (Cursor.local_pure _)
    exact ih.bind fun rest => Cursor.local_pure _

theorem local_clausesAtCursor : Cursor.Local clausesAtCursor := by
  intro start clauses stop more hin h
  -- The bound for the longer data is also one for the data.
  have hless : start.remaining < (start.extend more).remaining + 1 := by
    simp only [Cursor.remaining, Cursor.extend, ByteArray.size_append]
    omega
  rw [← clausesWithin_eq hless] at h
  exact local_clausesWithin _ start clauses stop more hin h

theorem local_read : Cursor.Local read := by
  refine Cursor.local_peek.bind fun lead => ?_
  split
  · exact (Cursor.rereads_advance 1).isLocal.bind fun _ =>
      (Cursor.rereads_take _).isLocal.bind fun code => Cursor.local_pure _
  · refine (Cursor.rereads_number 2).isLocal.bind fun flags => ?_
    refine (Cursor.rereads_number 2).isLocal.bind fun maxStack => ?_
    refine (Cursor.rereads_number 4).isLocal.bind fun codeSize => ?_
    refine (Cursor.rereads_number 4).isLocal.bind fun locals => ?_
    refine (Cursor.local_throw _).ite ((Cursor.local_seek _).bind fun _ => ?_)
    refine (Cursor.rereads_take _).isLocal.bind fun code => ?_
    refine Cursor.Local.ite ?_ (Cursor.local_pure _)
    exact (Cursor.local_align 4).bind fun _ => local_clausesAtCursor.bind fun clauses =>
      Cursor.local_pure _
  · exact Cursor.local_throw _

/-- How a body is read: a tiny one has only code behind its first byte, and behind the code of a
    fat one there may be sections, from the next multiple of four on. -/
theorem read_cases {cursor stop : Cursor} {body : MethodBody}
    (hread : read cursor = (.ok body, stop)) :
    (body.headerSize = 1 ∧ body.clauses = [] ∧ ∃ lead : UInt8,
      Cursor.take (lead.toNat / 4) (cursor.forward 1) = (.ok body.code, stop)) ∨
    ∃ codeSize < LittleEndian.bound 4, ∃ place,
      Cursor.take codeSize { cursor with pos := body.headerSize } = (.ok body.code, place) ∧
      (body.clauses = [] ∨ ∃ aligned, Cursor.align 4 place = (.ok (), aligned) ∧
        clausesAtCursor aligned = (.ok body.clauses, stop)) := by
  obtain ⟨lead, _, hpeek, h⟩ := bind_eq_ok hread
  obtain ⟨-, rfl⟩ := Cursor.peek_eq_ok hpeek
  have hlead := lead.toNat_lt
  have hform : lead.toNat % 4 = 2 ∨ lead.toNat % 4 = 3 ∨ lead.toNat % 4 = 0 ∨
      lead.toNat % 4 = 1 := by omega
  rcases hform with hform | hform | hform | hform
  · rw [hform] at h
    obtain ⟨_, _, hadvance, h⟩ := bind_eq_ok h
    obtain ⟨-, rfl⟩ := Cursor.advance_eq_ok hadvance
    obtain ⟨code, _, htake, h⟩ := bind_eq_ok h
    obtain ⟨⟨⟩⟩ := h
    exact .inl ⟨rfl, rfl, lead, htake⟩
  · rw [hform] at h
    obtain ⟨flags, _, hflags, h⟩ := bind_eq_ok h
    obtain ⟨maxStack, _, hstack, h⟩ := bind_eq_ok h
    obtain ⟨codeSize, _, hsize, h⟩ := bind_eq_ok h
    obtain ⟨locals, _, hlocals, h⟩ := bind_eq_ok h
    obtain ⟨-, -, rfl⟩ := Cursor.number_eq_ok hflags
    obtain ⟨-, -, rfl⟩ := Cursor.number_eq_ok hstack
    obtain ⟨-, hvalue, rfl⟩ := Cursor.number_eq_ok hsize
    obtain ⟨-, -, rfl⟩ := Cursor.number_eq_ok hlocals
    dsimp only at h
    split at h
    · cases h
    obtain ⟨_, _, hseek, h⟩ := bind_eq_ok h
    obtain ⟨-, rfl⟩ := Cursor.seek_eq_ok hseek
    obtain ⟨code, place, htake, h⟩ := bind_eq_ok h
    refine .inr ⟨codeSize, hvalue ▸ LittleEndian.valueAt_lt_bound _ _ _, place, ?_⟩
    split at h
    · obtain ⟨_, aligned, halign, h⟩ := bind_eq_ok h
      obtain ⟨clauses, _, hclauses, h⟩ := bind_eq_ok h
      obtain ⟨⟨⟩⟩ := h
      exact ⟨htake, .inr ⟨aligned, halign, hclauses⟩⟩
    · obtain ⟨⟨⟩⟩ := h
      exact ⟨htake, .inl rfl⟩
  all_goals
    rw [hform] at h
    cases h

/-- A body lies in the data: its header, its code, and twelve bytes or more for each clause. -/
theorem read_eq_ok {data : ByteArray} {body : MethodBody} {stop : Cursor}
    (h : read { data } = (.ok body, stop)) :
    body.code = data.extract body.headerSize body.size ∧
      body.size + 12 * body.clauses.length ≤ data.size := by
  have hcode : ∀ {count : Nat} {place : Cursor},
      Cursor.take count { data, pos := body.headerSize } = (.ok body.code, place) →
        body.code = data.extract body.headerSize body.size ∧ body.size ≤ data.size ∧
          place = { data, pos := body.size } := by
    intro count place htake
    have hsize := Cursor.size_of_take htake
    obtain ⟨hfits, hcode, hplace⟩ := Cursor.take_eq_ok htake
    rw [← hsize, Nat.add_comm, ← size] at hcode hfits
    rw [← hsize, Cursor.forward, Nat.add_comm, ← size] at hplace
    exact ⟨hcode, hfits, hplace⟩
  rcases read_cases h with ⟨hheader, hnone, lead, htake⟩ | ⟨codeSize, -, place, htake, hclauses⟩
  · have hstart : Cursor.forward { data } 1 = { data, pos := body.headerSize } := by
      rw [hheader]
      rfl
    rw [hstart] at htake
    obtain ⟨hextract, hsize, -⟩ := hcode htake
    rw [hnone]
    exact ⟨hextract, hsize⟩
  · obtain ⟨hextract, hsize, rfl⟩ := hcode htake
    refine ⟨hextract, ?_⟩
    rcases hclauses with hnone | ⟨aligned, halign, hclauses⟩
    · rw [hnone]
      exact hsize
    · obtain ⟨gap, -, hpasses⟩ := Cursor.passes_of_advance halign
      have hpos : aligned.pos = body.size + gap.length := hpasses.pos_eq
      have hdata : aligned.data = data := hpasses.data_eq
      have hlength := length_clausesWithin hclauses
      rw [hdata] at hlength
      omega

/-- **A body that is decoded at the start of a byte string is decoded alike whatever follows. Its
    code stands right behind its header, and header, code and twelve bytes for each clause are no
    longer than the byte string. The loop over its sections ends in every byte string: one loop
    only does what its rounds demand.** -/
theorem ofBytes_append (data : ByteArray) :
    (∀ body, ofBytes data = .ok body →
      (∀ more, ofBytes (data ++ more) = .ok body) ∧
      body.code = data.extract body.headerSize (body.headerSize + body.code.size) ∧
      body.size + 12 * body.clauses.length ≤ data.size) ∧
    ∀ loop, loop = sectionsThen loop ↔ loop = clausesAtCursor := by
  refine ⟨fun body h => ?_, eq_sectionsThen_iff⟩
  rw [ofBytes] at h
  split at h
  · cases h
  rename_i hsome
  have hread : read { data } = (.ok body, (read { data }).2) := Prod.ext h rfl
  obtain ⟨hcode, hsize⟩ := read_eq_ok hread
  refine ⟨fun more => ?_, by rwa [Nat.add_comm, ← size], hsize⟩
  obtain ⟨-, hlonger⟩ := local_read { data } body _ more (Nat.zero_le _) hread
  have hmore : ¬ (data ++ more).isEmpty := by
    simp only [ByteArray.isEmpty, beq_iff_eq, ByteArray.size_append] at hsome ⊢
    omega
  rw [ofBytes, if_neg hmore]
  exact congrArg Prod.fst hlonger

/-- A body of one instruction, with a clause around it. -/
def guarded : ByteArray :=
  ⟨#[0x1B, 0x30, 2, 0, 1, 0, 0, 0, 0, 0, 0, 0, 0x2A, 0, 0, 0,
     1, 16, 0, 0, 2, 0, 0, 0, 1, 1, 0, 1, 0, 0, 0, 0]⟩

theorem ofBytes_guarded_append :
    ∃ body, body.clauses = [⟨2, 0, 1, 1, 1, 0⟩] ∧ ofBytes guarded = .ok body ∧
      (∀ more, ofBytes (guarded ++ more) = .ok body) ∧
      body.code = guarded.extract body.headerSize (body.headerSize + body.code.size) ∧
      body.size + 12 * body.clauses.length ≤ guarded.size := by
  have hok : (ofBytes guarded).toOption.map (·.clauses) = some [⟨2, 0, 1, 1, 1, 0⟩] := by
    decide +kernel
  obtain ⟨body, hbody, hclauses⟩ := exists_ok_of_map hok
  exact ⟨body, hclauses, hbody, (ofBytes_append guarded).1 body hbody⟩

end MethodBody

end ApiCensus
