/-
  A type is passed over where it is read, unless a method that it points to has variable
  parameters.

  * `SignatureType.allRequired`: every call of a method that the type points to has all its
    parameters.
  * `Skips`: a step passes over something if a condition holds, and stops at a mark if not;
    `Skips.bind` puts two steps together.
  * `Signature.skips_typeWithin`: so it is with a type, however deep types may nest.
  * `Signature.skip_of_type`: passing over a type ends where reading it ended, or at the mark
    before the variable parameters, which reading knows and passing over does not.
-/
import ApiCensus.Proofs.Signature.Leading
import ApiCensus.Proofs.Signature.Mirroring
import ApiCensus.Signature.Skip

namespace ApiCensus

open Attempt Signature Signature.Decoding

variable {σ α β : Type}

namespace SignatureType

mutual

/-- No method that the type points to has variable parameters. -/
def allRequired : SignatureType → Bool
  | .primitive _ | .definition _ _ | .reference _ _ | .specification _ _ => true
  | .typeParameter _ | .methodParameter _ => true
  | .vector element | .byReference element | .pointer element | .pinned element =>
    allRequired element
  | .array element _ => allRequired element
  | .instantiation generic arguments => allRequired generic && eachAllRequired arguments
  | .modified _ unmodified _ => allRequired unmodified
  | .functionPointer signature => methodAllRequired signature

/-- No method that one of the types points to has variable parameters. -/
def eachAllRequired : List SignatureType → Bool
  | [] => true
  | tree :: trees => allRequired tree && eachAllRequired trees

/-- Neither the method nor one that its types point to has variable parameters. -/
def methodAllRequired : MethodSignature SignatureType → Bool
  | ⟨_, _, requiredCount, returnType, parameters⟩ =>
    allRequired returnType && requiredCount == parameters.length && eachAllRequired parameters

end

end SignatureType

open SignatureType

namespace Signature

/-! ## Steps that pass over something -/

/-- From `start` on, the step ends well at `stop` if `clear` holds, and at a mark if not. -/
structure Skips (step : Attempt Cursor Unit) (start stop : Cursor) (clear : Prop) : Prop where
  ends : clear → step start = (.ok (), stop)
  fails : ¬ clear → (step start).1 = .error (.malformed (.skippedElement Element.sentinel))

section
variable {step next : Attempt Cursor Unit} {start middle stop : Cursor} {P Q : Prop}

theorem Skips.of_eq (h : step start = (.ok (), stop)) : Skips step start stop True :=
  ⟨fun _ => h, fun hn => absurd trivial hn⟩

theorem Skips.congr (h : Skips step start stop P) (hPQ : P ↔ Q) : Skips step start stop Q :=
  ⟨fun hq => h.ends (hPQ.2 hq), fun hq => h.fails fun hp => hq (hPQ.1 hp)⟩

theorem fails_bind {fault : Fault} (h : (step start).1 = .error fault) :
    ((step >>= fun _ => next) start).1 = .error fault := by
  rcases hrun : step start with ⟨other | _, place⟩ <;> rw [hrun] at h
  · rw [bind_apply_error hrun]
    exact h
  · exact absurd h (by simp)

theorem Skips.bind (hs : Skips step start middle P) (hn : Skips next middle stop Q) :
    Skips (step >>= fun _ => next) start stop (P ∧ Q) := by
  refine ⟨fun ⟨hp, hq⟩ => ?_, fun hpq => ?_⟩
  · rw [bind_apply_ok (hs.ends hp), hn.ends hq]
  · by_cases hp : P
    · rw [bind_apply_ok (hs.ends hp)]
      exact hn.fails fun hq => hpq ⟨hp, hq⟩
    · exact fails_bind (hs.fails hp)

/-- What is read alike is no matter. -/
theorem Skips.read_bind {read : Attempt Cursor β} {next : β → Attempt Cursor Unit} {b : β}
    (h : read start = (.ok b, middle)) (hn : Skips (next b) middle stop P) :
    Skips (read >>= next) start stop P :=
  ⟨fun hp => (bind_apply_ok h).trans (hn.ends hp), fun hp => by
    rw [bind_apply_ok h]
    exact hn.fails hp⟩

theorem skips_discard {read : Attempt Cursor β} {b : β} (h : read start = (.ok b, stop)) :
    Skips (discard read) start stop True := by
  apply Skips.of_eq
  show ((fun _ => ()) <$> read) start = _
  rw [map_apply, h]
  rfl

theorem skips_numbers {read : Attempt Cursor β} {count : Nat} {list : List β}
    (h : repeated read count start = (.ok list, stop)) :
    Skips (skipEach (discard read) count) start stop True := by
  induction count generalizing start list with
  | zero =>
    obtain ⟨-, rfl⟩ := Prod.mk.inj h
    exact .of_eq rfl
  | succ count ih =>
    obtain ⟨first, middle, hfirst, h⟩ := bind_eq_ok h
    obtain ⟨rest, place, hrest, h⟩ := bind_eq_ok h
    obtain ⟨-, rfl⟩ := Prod.mk.inj h
    exact ((skips_discard hfirst).bind (ih hrest)).congr (by simp)

/-- The shape of an array is passed over without a look at how many dimensions there are. -/
theorem skips_arrayShape {shape : ArrayShape} (h : arrayShape start = (.ok shape, stop)) :
    Skips (do
      let _ ← Compressed.number
      let sizes ← Compressed.number
      skipEach (discard Compressed.number) sizes
      let lowerBounds ← Compressed.number
      skipEach (discard Compressed.signedNumber) lowerBounds) start stop True := by
  obtain ⟨rank, place, hrank, h⟩ := bind_eq_ok h
  refine .read_bind hrank ?_
  split at h
  · exact absurd (congrArg Prod.fst h) (by simp)
  obtain ⟨sizeCount, place₂, hsizeCount, h⟩ := bind_eq_ok h
  refine .read_bind hsizeCount ?_
  split at h
  · exact absurd (congrArg Prod.fst h) (by simp)
  obtain ⟨sizes, place₃, hsizes, h⟩ := bind_eq_ok h
  obtain ⟨boundCount, place₄, hboundCount, h⟩ := bind_eq_ok h
  split at h
  · exact absurd (congrArg Prod.fst h) (by simp)
  obtain ⟨lowerBounds, place₅, hlowerBounds, h⟩ := bind_eq_ok h
  obtain ⟨-, rfl⟩ := Prod.mk.inj h
  exact ((skips_numbers hsizes).bind
    (.read_bind hboundCount (skips_numbers hlowerBounds))).congr (by simp)

end

/-! ## Types -/

variable {start stop : Cursor × Unit} {trees : Decoding Unit SignatureType} {limit depth : Nat}

/-- Where the trees of types are read, the types are passed over. -/
def SkipsTypes (step : Attempt Cursor Unit) (trees : Decoding Unit SignatureType) : Prop :=
  ∀ start stop tree, trees start = (.ok tree, stop) →
    Skips step start.1 stop.1 tree.allRequired

theorem skips_repeated {step : Attempt Cursor Unit} (hi : SkipsTypes step trees) {count : Nat}
    {list : List SignatureType} (h : repeated trees count start = (.ok list, stop)) :
    Skips (skipEach step count) start.1 stop.1 (eachAllRequired list) := by
  induction count generalizing start list with
  | zero =>
    obtain ⟨rfl, rfl⟩ := pure_eq_ok h
    exact (Skips.of_eq rfl).congr (by simp [eachAllRequired])
  | succ count ih =>
    obtain ⟨first, middle, hfirst, h⟩ := bind_eq_ok h
    obtain ⟨rest, place, hrest, h⟩ := bind_eq_ok h
    obtain ⟨rfl, rfl⟩ := pure_eq_ok h
    exact ((hi _ _ _ hfirst).bind (ih hrest)).congr (by simp [eachAllRequired])

/-- All that reading a parameter and those behind it can do: it passes over the first mark, and
    then reads a type. -/
theorem parameters_succ_eq_ok {type : Decoding σ α} {index left : Nat} {mark sentinel : Option Nat}
    {place place' : Cursor × σ} {list : List α}
    (h : parameters type index mark (left + 1) place = (.ok (list, sentinel), place')) :
    ∃ next before mark' first middle rest,
      Cursor.peek place.1 = (.ok next, place.1) ∧
      ((next = Element.sentinel ∧ mark = none ∧ mark' = some index) ∨
        (mark' = mark ∧ before = place)) ∧
      type before = (.ok first, middle) ∧
      parameters type (index + 1) mark' left middle = (.ok (rest, sentinel), place') ∧
      list = first :: rest := by
  have hthen : ∀ {mark' before},
      parameterThen type (index + 1) mark' left before = (.ok (list, sentinel), place') →
      ∃ first middle rest, type before = (.ok first, middle) ∧
        parameters type (index + 1) mark' left middle = (.ok (rest, sentinel), place') ∧
        list = first :: rest := by
    intro mark' before h
    obtain ⟨first, middle, hfirst, h⟩ := bind_eq_ok h
    obtain ⟨⟨rest, mark''⟩, middle', hrest, h⟩ := bind_eq_ok h
    obtain ⟨hlist, rfl⟩ := pure_eq_ok h
    obtain ⟨rfl, rfl⟩ := Prod.mk.inj hlist
    exact ⟨first, middle, rest, hfirst, hrest, rfl⟩
  rcases parameters_succ_cases h with ⟨hmark, before, hpassed, h⟩ | ⟨⟨next, hpeek, -⟩, h⟩
  · obtain ⟨first, middle, rest, hfirst, hrest, hlist⟩ := hthen h
    have hpeek : Cursor.peek place.1 = (.ok Element.sentinel, place.1) := by
      rw [Cursor.peek, Cursor.Sees.getElem? hpassed.1]
    exact ⟨_, _, _, first, middle, rest, hpeek, .inl ⟨rfl, hmark, rfl⟩, hfirst, hrest, hlist⟩
  · obtain ⟨first, middle, rest, hfirst, hrest, hlist⟩ := hthen h
    exact ⟨next, place, mark, first, middle, rest, hpeek, .inr ⟨rfl, rfl⟩, hfirst, hrest, hlist⟩

/-- A mark that has been seen is kept. A new one is the number of a parameter. -/
theorem parameters_eq_ok {type : Decoding σ α} {index left : Nat} {mark sentinel : Option Nat}
    {place place' : Cursor × σ} {list : List α}
    (h : parameters type index mark left place = (.ok (list, sentinel), place')) :
    list.length = left ∧ (∀ n, mark = some n → sentinel = some n) ∧
      ∀ n, sentinel = some n → mark = some n ∨ n < index + left := by
  induction left generalizing index mark place list with
  | zero =>
    obtain ⟨hlist, rfl⟩ := pure_eq_ok h
    obtain ⟨rfl, rfl⟩ := Prod.mk.inj hlist
    exact ⟨rfl, fun _ hn => hn, fun _ hn => .inl hn⟩
  | succ left ih =>
    obtain ⟨next, before, mark', first, middle, rest, -, hmark, -, hrest, rfl⟩ :=
      parameters_succ_eq_ok h
    obtain ⟨hlength, hkept, hnew⟩ := ih hrest
    refine ⟨by rw [List.length_cons, hlength], fun n hn => ?_, fun n hn => ?_⟩
    · rcases hmark with ⟨-, hnone, -⟩ | ⟨hsame, -⟩
      · exact absurd (hn.symm.trans hnone) (by simp)
      · exact hkept n (hsame.trans hn)
    · rcases hnew n hn with hn | hlt
      · rcases hmark with ⟨-, -, hindex⟩ | ⟨hsame, -⟩
        · obtain rfl : n = index := Option.some.inj (hn.symm.trans hindex)
          exact .inr (by omega)
        · exact .inl (hsame.symm.trans hn)
      · exact .inr (by omega)

/-- Passing over a type stops at a mark that stands in its place. -/
theorem skipWithin_sentinel {cursor : Cursor}
    (h : Cursor.peek cursor = (.ok Element.sentinel, cursor)) :
    (skipWithin (depth + 1) cursor).1 =
      .error (.malformed (.skippedElement Element.sentinel)) := by
  have hbyte : Cursor.byte cursor =
      (.ok Element.sentinel, { cursor with pos := cursor.pos + 1 }) := by
    rw [Cursor.byte, (Cursor.peek_eq_ok h).1]
  rw [skipWithin, bind_apply_ok hbyte]
  rfl

theorem pos_of_typeWithin {builder : TypeBuilder σ α} {place place' : Cursor × σ} {a : α}
    (h : typeWithin builder limit place = (.ok a, place')) : 0 < limit := by
  cases limit with
  | zero => exact absurd (congrArg Prod.fst h) (by simp [typeWithin])
  | succ limit => exact Nat.succ_pos limit

theorem skips_parameters (hi : SkipsTypes (skipWithin depth) (typeWithin TypeBuilder.tree limit))
    (hd : limit ≤ depth) {index left : Nat} {sentinel : Option Nat} {list : List SignatureType}
    (h : parameters (typeWithin TypeBuilder.tree limit) index none left start =
      (.ok (list, sentinel), stop)) :
    Skips (skipEach (skipWithin depth) left) start.1 stop.1
      (sentinel = none ∧ eachAllRequired list) := by
  induction left generalizing index start list with
  | zero =>
    obtain ⟨hlist, rfl⟩ := pure_eq_ok h
    obtain ⟨rfl, rfl⟩ := Prod.mk.inj hlist
    exact (Skips.of_eq rfl).congr (by simp [eachAllRequired])
  | succ left ih =>
    obtain ⟨next, before, mark, first, middle, rest, hpeek, hmark, hfirst, hrest, rfl⟩ :=
      parameters_succ_eq_ok h
    rcases hmark with ⟨rfl, -, rfl⟩ | ⟨rfl, rfl⟩
    · have hsome : sentinel = some index := (parameters_eq_ok hrest).2.1 index rfl
      have hpos := pos_of_typeWithin hfirst
      obtain ⟨depth, rfl⟩ : ∃ d, depth = d + 1 := Nat.exists_eq_add_one_of_ne_zero (by omega)
      refine ⟨fun hclear => absurd (hsome.symm.trans hclear.1) (by simp), fun _ => ?_⟩
      exact fails_bind (skipWithin_sentinel hpeek)
    · refine ((hi _ _ _ hfirst).bind (ih hrest)).congr ?_
      rw [eachAllRequired, Bool.and_eq_true]
      exact and_left_comm

/-- What follows the header of a method signature and the count of generic parameters. -/
theorem skips_method_rest
    (hi : SkipsTypes (skipWithin depth) (typeWithin TypeBuilder.tree limit)) (hd : limit ≤ depth)
    {header : Header} {genericCount : Nat} {signature : MethodSignature SignatureType}
    (h : (do
      let count ← read Compressed.number
      let returnType ← typeWithin TypeBuilder.tree limit
      let (parameters, sentinel) ← parameters (typeWithin TypeBuilder.tree limit) 0 none count
      pure { header, genericCount, requiredCount := sentinel.getD count, returnType, parameters } :
        Decoding Unit _) start = (.ok signature, stop)) :
    Skips (do
      let count ← Compressed.number
      skipWithin depth
      skipEach (skipWithin depth) count) start.1 stop.1 (methodAllRequired signature) := by
  obtain ⟨count, place, hcount, h⟩ := bind_eq_ok h
  obtain ⟨returnType, place₂, hreturn, h⟩ := bind_eq_ok h
  obtain ⟨⟨list, sentinel⟩, place₃, hlist, h⟩ := bind_eq_ok h
  obtain ⟨rfl, rfl⟩ := pure_eq_ok h
  obtain ⟨hlength, -, hnew⟩ := parameters_eq_ok hlist
  have hcount_iff : sentinel.getD count = list.length ↔ sentinel = none := by
    cases sentinel with
    | none => simp [hlength]
    | some n =>
      have hlt := (hnew n rfl).resolve_left (by simp)
      simp only [Option.getD_some, hlength, reduceCtorEq, iff_false]
      omega
  refine .read_bind (read_eq_ok hcount) ?_
  refine ((hi _ _ _ hreturn).bind (skips_parameters hi hd hlist)).congr ?_
  rw [methodAllRequired, Bool.and_eq_true, Bool.and_eq_true, beq_iff_eq, hcount_iff, and_assoc]

theorem skips_methodOf (hi : SkipsTypes (skipWithin depth) (typeWithin TypeBuilder.tree limit))
    (hd : limit ≤ depth) {signature : MethodSignature SignatureType}
    (h : methodOf (typeWithin TypeBuilder.tree limit) start = (.ok signature, stop)) :
    Skips (do
      let header : Header := ⟨← Cursor.byte⟩
      if header.isGeneric then
        let _ ← Compressed.number
      let count ← Compressed.number
      skipWithin depth
      skipEach (skipWithin depth) count) start.1 stop.1 (methodAllRequired signature) := by
  obtain ⟨header, place, hheader, h⟩ := bind_eq_ok h
  obtain ⟨byte, place₂, hbyte, hpure⟩ := bind_eq_ok (read_eq_ok hheader)
  obtain ⟨rfl, rfl⟩ := pure_eq_ok hpure
  refine .read_bind hbyte ?_
  split at h
  · split at h
    · next hgeneric =>
      obtain ⟨genericCount, place₃, hcount, h⟩ := bind_eq_ok h
      simp only [hgeneric, if_true]
      exact .read_bind (read_eq_ok hcount) (skips_method_rest hi hd h)
    · next hgeneric =>
      simp only [hgeneric]
      exact skips_method_rest hi hd h
  · exact absurd (congrArg Prod.fst h) (by simp)

theorem token_of_nominal {form : NominalForm} {tree : SignatureType}
    (h : nominal TypeBuilder.tree form start = (.ok tree, stop)) :
    ∃ token, Compressed.token start.1 = (.ok token, stop.1) ∧ tree.allRequired := by
  obtain ⟨token, htoken, htree⟩ := nominal_eq_ok h
  refine ⟨token, htoken, ?_⟩
  obtain ⟨-, rfl⟩ | ⟨-, rfl⟩ | ⟨-, rfl⟩ := htree <;> rw [allRequired]

/-- **However deep types may nest, a type that is read is passed over, if passing over may go as
    deep, up to the first mark before variable parameters.** -/
theorem skips_typeWithin (hd : limit ≤ depth) :
    SkipsTypes (skipWithin depth) (typeWithin TypeBuilder.tree limit) := by
  induction limit generalizing depth with
  | zero => exact fun _ _ _ h => absurd (pos_of_typeWithin h) (Nat.lt_irrefl 0)
  | succ limit ih =>
    obtain ⟨depth, rfl⟩ : ∃ d, depth = d + 1 := Nat.exists_eq_add_one_of_ne_zero (by omega)
    have hd' : limit ≤ depth := Nat.le_of_succ_le_succ hd
    have hi := ih hd'
    intro start stop tree h
    obtain ⟨code, middle, hcode, h⟩ := bind_eq_ok h
    refine .read_bind (read_eq_ok hcode) ?_
    generalize Element.ofCode? code = found at h ⊢
    rcases found with _ | element
    · exact absurd (congrArg Prod.fst h) (by simp)
    cases element with
    | primitive type =>
      obtain ⟨rfl, hstop⟩ := build_pure_eq_ok h
      rw [hstop]
      exact (Skips.of_eq rfl).congr (by simp [allRequired])
    | classType | valueType =>
      obtain ⟨token, htoken, hall⟩ := token_of_nominal h
      exact (skips_discard htoken).congr (by simp [hall])
    | pointer | byReference | pinned | vector =>
      obtain ⟨part, place, hpart, h⟩ := bind_eq_ok h
      obtain ⟨rfl, hstop⟩ := build_pure_eq_ok h
      rw [hstop]
      exact (hi _ _ _ hpart).congr (by rw [allRequired])
    | array =>
      obtain ⟨part, place, hpart, h⟩ := bind_eq_ok h
      obtain ⟨shape, place₂, hshape, h⟩ := bind_eq_ok h
      obtain ⟨rfl, hstop⟩ := build_pure_eq_ok h
      rw [hstop]
      exact ((hi _ _ _ hpart).bind (skips_arrayShape (read_eq_ok hshape))).congr
        (by simp [allRequired])
    | instantiation =>
      obtain ⟨generic, place, hgeneric, h⟩ := bind_eq_ok h
      obtain ⟨count, place₂, hcount, h⟩ := bind_eq_ok h
      split at h
      · exact absurd (congrArg Prod.fst h) (by simp)
      obtain ⟨arguments, place₃, harguments, h⟩ := bind_eq_ok h
      obtain ⟨rfl, hstop⟩ := build_pure_eq_ok h
      rw [hstop]
      exact ((hi _ _ _ hgeneric).bind
        (.read_bind (read_eq_ok hcount) (skips_repeated hi harguments))).congr
          (by rw [allRequired, Bool.and_eq_true])
    | typeParameter | methodParameter =>
      obtain ⟨index, place, hindex, h⟩ := bind_eq_ok h
      obtain ⟨rfl, hstop⟩ := build_pure_eq_ok h
      rw [hstop]
      exact (skips_discard (read_eq_ok hindex)).congr (by simp [allRequired])
    | modifier required =>
      obtain ⟨modifier, place, hmodifier, h⟩ := bind_eq_ok h
      obtain ⟨unmodified, place₂, hunmodified, h⟩ := bind_eq_ok h
      obtain ⟨rfl, hstop⟩ := build_pure_eq_ok h
      obtain ⟨token, htoken, -⟩ := token_of_nominal hmodifier
      rw [hstop]
      exact .read_bind htoken ((hi _ _ _ hunmodified).congr (by rw [allRequired]))
    | functionPointer =>
      obtain ⟨signature, place, hsignature, h⟩ := bind_eq_ok h
      obtain ⟨rfl, hstop⟩ := build_pure_eq_ok h
      rw [hstop]
      exact (skips_methodOf hi hd' hsignature).congr (by rw [allRequired])

/-- **Where any builder reads a type, the type has a tree, read from the same bytes. If all
    parameters of the methods that it points to are required, passing over the type ends where
    reading it ended; if not, it fails at the mark before the variable ones.** -/
theorem skip_of_type {builder : TypeBuilder σ α} {start stop : Cursor} {state state' : σ} {a : α}
    (h : type builder (start, state) = (.ok a, (stop, state'))) :
    ∃ tree, type TypeBuilder.tree (start, ()) = (.ok tree, (stop, ())) ∧
      (tree.allRequired → skip start = (.ok (), stop)) ∧
      (¬ tree.allRequired →
        (skip start).1 = .error (.malformed (.skippedElement Element.sentinel))) := by
  obtain ⟨tree, htree⟩ := exists_tree_of_type h
  have hskips := skips_typeWithin (show maxDepth ≤ maxSkipDepth + 1 by decide) _ _ _ htree
  exact ⟨tree, htree, hskips.ends, hskips.fails⟩

/-- A modified array of generic types, whose arguments are a pointer to a method and a type
    parameter. -/
def modifiedArray : ByteArray :=
  ⟨#[0x1F, 0x05, 0x14, 0x15, 0x12, 0x05, 0x02, 0x1B, 0x00, 0x02, 0x01, 0x08, 0x0F, 0x08, 0x13, 0x00,
    0x02, 0x01, 0x03, 0x02, 0x00, 0x02]⟩

/-- A pointer to a method with one parameter that is not required. -/
def markedPointer : ByteArray :=
  ⟨#[0x1B, 0x05, 0x01, 0x01, 0x41, 0x08]⟩

theorem skip_of_type_modifiedArray : ∃ stop,
    type TypeBuilder.plain ({ data := modifiedArray }, ()) =
        (.ok "ref(0x01000001)<fnptr Void(Int32,Int32*),!0>[2] modreq(ref(0x01000001))", (stop, ())) ∧
      skip { data := modifiedArray } = (.ok (), stop) ∧ stop.pos = 22 := by
  have hanswer : (type TypeBuilder.plain ({ data := modifiedArray }, ())).1 =
      .ok "ref(0x01000001)<fnptr Void(Int32,Int32*),!0>[2] modreq(ref(0x01000001))" :=
    eq_ok_of_toOption (by decide +kernel)
  have hpos : (type TypeBuilder.plain ({ data := modifiedArray }, ())).2.1.pos = 22 := by
    decide +kernel
  rcases hrun : type TypeBuilder.plain ({ data := modifiedArray }, ()) with ⟨answer, stop, _⟩
  rw [hrun] at hanswer hpos
  obtain rfl := hanswer
  obtain ⟨tree, htree, hends, -⟩ := skip_of_type hrun
  have hall : (type TypeBuilder.tree ({ data := modifiedArray }, ())).1.toOption.map
      allRequired = some true := by decide +kernel
  rw [htree] at hall
  exact ⟨stop, rfl, hends (Option.some.inj hall), hpos⟩

/-- The mark before a variable parameter is read with the parameter, but not passed over. -/
theorem skip_markedPointer :
    type TypeBuilder.plain ({ data := markedPointer }, ()) =
        (.ok "fnptr Void(Int32)", ({ data := markedPointer, pos := 6 }, ())) ∧
      skip { data := markedPointer } =
        (.error (.malformed (.skippedElement 0x41)), { data := markedPointer, pos := 5 }) :=
  ⟨rfl, rfl⟩

end Signature

end ApiCensus
