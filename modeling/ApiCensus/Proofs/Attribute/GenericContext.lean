/-
  The type of a generic parameter is that of the argument it stands for.

  * `Decoding.BuildsOnly`: a reading that does not look at the bytes.
  * `Decoding.SettledBy`: what a reading answers and builds is settled by the bytes, wherever they
    stand and whatever follows them.
  * `Assembly.elementType_settled`, `plainType_settled`: so it is with the type of a parameter, by
    the bytes of any type.
  * `Assembly.ConstructedOn`: a constructor belongs to a generic type with these arguments.
  * `Assembly.parameterType_typeParameter`: within that, a generic parameter is as good as the
    argument of its number.
-/
import ApiCensus.Attribute.Arguments
import ApiCensus.Proofs.Assembly.Owners
import ApiCensus.Proofs.Signature.Skipping
import ApiCensus.Proofs.Signature.Splicing

namespace ApiCensus

open Attempt Signature Signature.Decoding

variable {σ α β : Type}

/-! ## Readings that the bytes settle -/

namespace Signature.Decoding

/-- The reading does not look at the bytes, and leaves the cursor where it is. -/
def BuildsOnly (decoding : Decoding σ β) : Prop :=
  ∃ step : Attempt σ β, decoding = build step

/-- What the reading answers and builds is settled by the bytes, wherever they stand and whatever
    follows them. -/
def SettledBy (decoding : Decoding σ β) (bytes : List UInt8) : Prop :=
  ∃ step : Attempt σ β, ∀ cursor state back, cursor.Sees (bytes ++ back) →
    ∃ stop, decoding (cursor, state) = ((step state).1, (stop, (step state).2))

section
variable {decoding : Decoding σ α} {next : α → Decoding σ β} {front back bytes : List UInt8}

theorem buildsOnly_pure (a : α) : BuildsOnly (pure a : Decoding σ α) :=
  ⟨pure a, rfl⟩

theorem buildsOnly_throw (fault : Fault) : BuildsOnly (throw fault : Decoding σ α) :=
  ⟨throw fault, rfl⟩

theorem buildsOnly_ofExcept (result : Except Fault α) :
    BuildsOnly (liftM result : Decoding σ α) :=
  ⟨liftM result, rfl⟩

theorem BuildsOnly.bind (hd : BuildsOnly decoding) (hn : ∀ a, BuildsOnly (next a)) :
    BuildsOnly (decoding >>= next) := by
  obtain ⟨step, rfl⟩ := hd
  choose after hafter using hn
  refine ⟨step >>= after, ?_⟩
  funext ⟨cursor, state⟩
  rw [bind_apply, build, build, onPart, onPart, bind_apply]
  rcases step state with ⟨fault | a, state'⟩
  · rfl
  · show next a (cursor, state') = _
    rw [hafter a]
    rfl

theorem BuildsOnly.ite {c : Prop} [Decidable c] {other : Decoding σ α} (hd : BuildsOnly decoding)
    (ho : BuildsOnly other) : BuildsOnly (if c then decoding else other) := by
  by_cases hc : c
  · rwa [if_pos hc]
  · rwa [if_neg hc]

theorem BuildsOnly.settledBy (hd : BuildsOnly decoding) (bytes : List UInt8) :
    SettledBy decoding bytes := by
  obtain ⟨step, rfl⟩ := hd
  exact ⟨step, fun cursor state _ _ => ⟨cursor, rfl⟩⟩

theorem SettledBy.append (hd : SettledBy decoding front) (back : List UInt8) :
    SettledBy decoding (front ++ back) := by
  obtain ⟨step, hstep⟩ := hd
  refine ⟨step, fun cursor state more hsees => hstep cursor state (back ++ more) ?_⟩
  rwa [List.append_assoc] at hsees

theorem SettledBy.bind (hd : SettledBy decoding bytes) (hn : ∀ a, BuildsOnly (next a)) :
    SettledBy (decoding >>= next) bytes := by
  obtain ⟨step, hstep⟩ := hd
  choose after hafter using hn
  refine ⟨step >>= after, fun cursor state back hsees => ?_⟩
  obtain ⟨stop, hstop⟩ := hstep cursor state back hsees
  rw [bind_apply, hstop, bind_apply]
  rcases step state with ⟨fault | a, state'⟩
  · exact ⟨stop, rfl⟩
  · refine ⟨stop, ?_⟩
    show next a (stop, state') = _
    rw [hafter a]
    rfl

theorem read_bind_apply {step : Attempt Cursor α} {a : α} (hs : Cursor.Reads step front a)
    {cursor : Cursor} (hsees : cursor.Sees (front ++ back)) (state : σ) :
    (read step >>= next) (cursor, state) = next a (cursor.forward front.length, state) := by
  have hread : (read step : Decoding σ α) (cursor, state) =
      (.ok a, (cursor.forward front.length, state)) := by
    rw [read, onPart, hs cursor back hsees]
  rw [bind_apply_ok hread]

theorem SettledBy.read_bind {step : Attempt Cursor α} {a : α} (hs : Cursor.Reads step front a)
    (hn : SettledBy (next a) back) : SettledBy (read step >>= next) (front ++ back) := by
  obtain ⟨after, hafter⟩ := hn
  refine ⟨after, fun cursor state more hsees => ?_⟩
  rw [List.append_assoc] at hsees
  rw [read_bind_apply hs hsees]
  exact hafter _ state more hsees.forward

/-! ### Elsewhere -/

/-- Reading elsewhere, and going on behind what was read there. -/
theorem aside_read_bind_apply {step : Attempt Cursor α} {a : α} {next : α × Cursor → Decoding σ β}
    (hs : Cursor.Reads step front a) {place : Cursor} (hsees : place.Sees (front ++ back))
    (cursor : Cursor) (state : σ) :
    (aside place (read step) >>= next) (cursor, state) =
      next (a, place.forward front.length) (cursor, state) := by
  have haside : (aside place (read step) : Decoding σ (α × Cursor)) (cursor, state) =
      (.ok (a, place.forward front.length), (cursor, state)) := by
    rw [aside, read, onPart, hs place back hsees]
  rw [bind_apply_ok haside]

/-- What the bytes settle is the same elsewhere as on their own. -/
theorem SettledBy.aside_apply (hd : SettledBy decoding front) {place : Cursor}
    (hsees : place.Sees (front ++ back)) (cursor : Cursor) (state : σ) :
    (aside place decoding >>= fun found => pure found.1) (cursor, state) =
      build (decoding.onBytes front.toByteArray) (cursor, state) := by
  obtain ⟨step, hstep⟩ := hd
  have hstart : Cursor.Sees { data := front.toByteArray } (front ++ []) := by
    simpa using Cursor.sees_start front
  obtain ⟨stop, hthere⟩ := hstep place state back hsees
  obtain ⟨stop', halone⟩ := hstep _ state [] hstart
  rw [bind_apply, aside, hthere, build, onPart, onBytes, halone]
  rcases step state with ⟨fault | a, state'⟩ <;> rfl

end

end Signature.Decoding

/-! ## Types of parameters -/

namespace Assembly

section
variable {assembly : Assembly} {lookup : EnumLookup σ}

theorem nominalKind_buildsOnly (token : Token) :
    BuildsOnly (assembly.nominalKind lookup token) := by
  have hforeign : ∀ type, BuildsOnly (assembly.foreignKind lookup type) := by
    intro type
    refine (buildsOnly_ofExcept _).bind fun name => ?_
    cases name with
    | none => exact buildsOnly_pure _
    | some name => exact BuildsOnly.bind ⟨_, rfl⟩ fun _ => buildsOnly_pure _
  have hnamed : ∀ type (isType : Bool), BuildsOnly
      (if isType then pure (some .typeName) else assembly.foreignKind lookup type) :=
    fun type _ => (buildsOnly_pure _).ite (hforeign type)
  have hreferenced : ∀ type, BuildsOnly (assembly.referencedKind lookup type) := by
    intro type
    refine (buildsOnly_ofExcept _).bind fun nameSpace => BuildsOnly.ite ?_ (hnamed type false)
    exact (buildsOnly_ofExcept _).bind fun name => hnamed type _
  unfold nominalKind
  split
  · exact (buildsOnly_ofExcept _).bind hreferenced
  · refine (buildsOnly_ofExcept _).bind fun type => (buildsOnly_ofExcept _).bind fun _ => ?_
    exact buildsOnly_pure _
  · exact buildsOnly_pure _

section
variable {limit : Nat} {bytes : List UInt8} {tree : SignatureType}

/-- The bytes of a type settle the type of a parameter, if those of its elements do so for an
    array and no bytes matter for a generic parameter. -/
theorem parameterBy_settled {onVector onGeneric : Decoding σ (Option ArgumentType)}
    (h : ReadsAlone (Signature.typeWithin TypeBuilder.tree limit) bytes tree)
    (hv : ∀ depth part partBytes,
      ReadsAlone (Signature.typeWithin TypeBuilder.tree depth) partBytes part →
      SettledBy onVector partBytes)
    (hg : BuildsOnly onGeneric) :
    SettledBy (assembly.parameterBy lookup onVector onGeneric) bytes := by
  obtain ⟨element, rest, rfl, hnominal, hvector⟩ := exists_front h
  have htoken : element = .classType ∨ element = .valueType →
      SettledBy (read Compressed.token >>= fun token => assembly.nominalKind lookup token >>=
        fun kind => pure (kind.map ArgumentType.element)) rest := by
    intro helement
    obtain ⟨token, tokenBytes, more, rfl, hread⟩ := hnominal helement
    refine SettledBy.read_bind hread (BuildsOnly.settledBy ?_ more)
    exact (nominalKind_buildsOnly token).bind fun _ => buildsOnly_pure _
  refine SettledBy.read_bind (Cursor.reads_byte element.code) ?_
  split
  · exact (buildsOnly_pure _).settledBy rest
  · rw [Element.ofCode?_code]
    split
    · exact (buildsOnly_pure _).settledBy rest
    · rename_i helement
      exact htoken (.inl (Option.some.inj helement))
    · rename_i helement
      exact htoken (.inr (Option.some.inj helement))
    · rename_i helement
      obtain ⟨depth, part, partBytes, more, rfl, hpart⟩ := hvector (Option.some.inj helement)
      exact (hv depth part partBytes hpart).append more
    · exact hg.settledBy rest
    · exact (buildsOnly_pure _).settledBy rest

theorem elementType_settled
    (h : ReadsAlone (Signature.typeWithin TypeBuilder.tree limit) bytes tree) :
    SettledBy (assembly.elementType lookup) bytes :=
  parameterBy_settled h (fun _ _ partBytes _ => (buildsOnly_throw _).settledBy partBytes)
    (buildsOnly_throw _)

/-- **The type of a parameter is settled by the bytes of a type, whatever type that is.** -/
theorem plainType_settled
    (h : ReadsAlone (Signature.typeWithin TypeBuilder.tree limit) bytes tree) :
    SettledBy (assembly.plainType lookup) bytes := by
  refine parameterBy_settled h (fun _ _ _ hpart => ?_) (buildsOnly_throw _)
  refine (elementType_settled hpart).bind fun type => ?_
  rcases type with _ | _ | _ <;> exact buildsOnly_pure _

end

end

/-! ## Arguments -/

/-- The bytes are those of a type that nests no deeper than what is passed over may do. No method
    that it points to has variable parameters. -/
def IsArgument (bytes : List UInt8) : Prop :=
  ∃ tree stop, Signature.typeWithin TypeBuilder.tree (maxSkipDepth + 1)
      ({ data := bytes.toByteArray }, ()) = (.ok tree, (stop, ())) ∧
    stop.pos = bytes.length ∧ tree.allRequired

/-- A type that is read to its end nests no deeper than that. -/
theorem isArgument_of_type {bytes : List UInt8} {tree : SignatureType} {stop : Cursor}
    (h : type TypeBuilder.tree ({ data := bytes.toByteArray }, ()) = (.ok tree, (stop, ())))
    (hpos : stop.pos = bytes.length) (hall : tree.allRequired) : IsArgument bytes := by
  obtain ⟨_, hpasses, hread⟩ := reads_of_typeWithin (Nat.zero_le _) h 1
  obtain ⟨_, -, hrun⟩ := hread _ () _ hpasses.1 trivial
  rw [← hpasses.2] at hrun
  exact ⟨tree, stop, hrun, hpos, hall⟩

/-- The parent of the constructor is specified as a class or a value type with these arguments. -/
structure ConstructedOn (assembly : Assembly) (constructor : MemberRefRow)
    (arguments : List (List UInt8)) : Prop where
  parent : constructor.parent.table = .typeSpec
  specification : ∃ (row : TypeSpecRow) (handle countBytes after : List UInt8) (token : Token),
    assembly.row TypeSpecRow constructor.parent.row = .ok row ∧ IsHandle handle token ∧
    Cursor.Reads Compressed.number countBytes arguments.length ∧
    assembly.blob row.signature = .ok (Element.instantiation.code ::
      (handle ++ (countBytes ++ (arguments.flatten ++ after)))).toByteArray
  arguments : ∀ argument ∈ arguments, IsArgument argument

/-- The cursor stands before the number of the arguments and the arguments. -/
def BeforeArguments (context : Cursor) (arguments : List (List UInt8)) : Prop :=
  ∃ countBytes after, Cursor.Reads Compressed.number countBytes arguments.length ∧
    context.Sees (countBytes ++ (arguments.flatten ++ after))

theorem IsArgument.reads {bytes : List UInt8} (h : IsArgument bytes) :
    ∃ tree, tree.allRequired = true ∧
      ReadsAlone (Signature.typeWithin TypeBuilder.tree (maxSkipDepth + 1)) bytes tree := by
  obtain ⟨tree, stop, htype, hpos, hall⟩ := h
  have hread := reads_taken htype 0
  rw [Nat.zero_add, hpos, List.data_toByteArray, List.toList_toArray, List.take_length] at hread
  exact ⟨tree, hall, hread⟩

/-- An argument is passed over. -/
theorem reads_skip {bytes : List UInt8} (h : IsArgument bytes) : Cursor.Reads skip bytes () := by
  obtain ⟨tree, hall, hread⟩ := h.reads
  intro cursor back hsees
  obtain ⟨_, -, hrun⟩ := hread cursor () back hsees trivial
  exact (skips_typeWithin (Nat.le_refl (maxSkipDepth + 1)) _ _ _ hrun).ends hall

theorem reads_skipEach {arguments : List (List UInt8)}
    (h : ∀ argument ∈ arguments, IsArgument argument) :
    Cursor.Reads (skipEach skip arguments.length) arguments.flatten () := by
  induction arguments with
  | nil => exact Cursor.reads_pure ()
  | cons argument arguments ih =>
    have hrest := ih fun other ho => h other (List.mem_cons_of_mem argument ho)
    exact (reads_skip (h argument List.mem_cons_self)).bind hrest

section
variable {assembly : Assembly} {constructor : MemberRefRow} {arguments : List (List UInt8)}

/-- **The context of such a constructor stands before the number of its arguments.** -/
theorem genericContext_of_constructedOn (h : assembly.ConstructedOn constructor arguments) :
    ∃ context, assembly.genericContext constructor = .ok (some context) ∧
      BeforeArguments context arguments := by
  obtain ⟨row, handle, countBytes, after, token, hrow, hhandle, hcount, hblob⟩ := h.specification
  obtain ⟨element, tokenBytes, helement, rfl, htoken⟩ := hhandle
  have hindex : row.signature ≠ 0 := by
    intro hzero
    rw [hzero] at hblob
    have hsize := congrArg ByteArray.size (Except.ok.inj hblob)
    simp at hsize
  have hstart : Cursor.Sees { data := (Element.instantiation.code :: (element.code :: tokenBytes ++
      (countBytes ++ (arguments.flatten ++ after)))).toByteArray }
      ([Element.instantiation.code] ++ ([element.code] ++
        (tokenBytes ++ (countBytes ++ (arguments.flatten ++ after))))) := Cursor.sees_start _
  have hkind := hstart.forward
  have hhandle := hkind.forward
  have hcode := Element.instantiation.reads_code _ _ hstart
  have hnominal := element.reads_code _ _ hkind
  have htable := htoken _ _ hhandle
  refine ⟨_, ?_, countBytes, after, hcount, hhandle.forward⟩
  rw [genericContext, if_pos h.parent, hrow]
  show (if row.signature = 0 then _ else _) = _
  rw [if_neg hindex, hblob]
  show Attempt.result _ _ = _
  rw [result, bind_apply_ok hcode, if_pos rfl, bind_apply_ok hnominal,
    if_pos (Element.isNominalCode_iff.2 helement), bind_apply_ok htable]
  rfl

/-- `within` answers for a generic parameter what `alone` answers for the argument of its number, on
    its own, and stops behind that number. If there is no such argument, the fault says so. -/
structure Substitutes (within alone : Decoding σ (Option ArgumentType))
    (arguments : List (List UInt8)) : Prop where
  argument : ∀ {index indexBytes bytes back} {cursor : Cursor} (state : σ),
    Cursor.Reads Compressed.number indexBytes index → arguments[index]? = some bytes →
    cursor.Sees (Element.typeParameter.code :: (indexBytes ++ back)) →
    within (cursor, state) = build (alone.onBytes bytes.toByteArray)
      (cursor.forward (indexBytes.length + 1), state)
  beyond : ∀ {index indexBytes back} {cursor : Cursor} (state : σ),
    Cursor.Reads Compressed.number indexBytes index → arguments.length ≤ index →
    cursor.Sees (Element.typeParameter.code :: (indexBytes ++ back)) →
    within (cursor, state) = (.error (.malformed (.genericParameter index arguments.length)),
      (cursor.forward (indexBytes.length + 1), state))

section
variable {context : Cursor} {argument : Decoding σ (Option ArgumentType)} {index : Nat}
  {indexBytes back : List UInt8} {cursor : Cursor}

/-- The numbers of the arguments and of the parameter are read first. -/
theorem argumentOf_apply {after countBytes : List UInt8}
    (hcount : Cursor.Reads Compressed.number countBytes arguments.length)
    (hplace : context.Sees (countBytes ++ after))
    (hi : Cursor.Reads Compressed.number indexBytes index)
    (hsees : cursor.Sees (indexBytes ++ back)) (state : σ) :
    argumentOf context argument (cursor, state) =
      (if arguments.length ≤ index then
        Attempt.malformed (.genericParameter index arguments.length)
      else
        aside (context.forward countBytes.length) (read (skipEach skip index)) >>= fun skipped =>
          aside skipped.2 argument >>= fun found => pure found.1)
        (cursor.forward indexBytes.length, state) := by
  rw [argumentOf, aside_read_bind_apply hcount hplace]
  show (read Compressed.number >>= _) (cursor, state) = _
  rw [read_bind_apply hi hsees]

/-- The arguments are those before one of them, itself, and those behind it. -/
theorem flatten_eq_of_getElem? {bytes : List UInt8} (h : arguments[index]? = some bytes) :
    arguments.flatten =
      (arguments.take index).flatten ++ (bytes ++ (arguments.drop (index + 1)).flatten) := by
  obtain ⟨hlt, rfl⟩ := List.getElem?_eq_some_iff.1 h
  rw [← List.flatten_cons, ← List.drop_eq_getElem_cons hlt, ← List.flatten_append,
    List.take_append_drop]

/-- The arguments before it are passed over. -/
theorem argumentOf_apply_of_getElem? {bytes : List UInt8} (hc : BeforeArguments context arguments)
    (ha : ∀ other ∈ arguments, IsArgument other) (hb : SettledBy argument bytes)
    (hi : Cursor.Reads Compressed.number indexBytes index) (hbytes : arguments[index]? = some bytes)
    (hsees : cursor.Sees (indexBytes ++ back)) (state : σ) :
    argumentOf context argument (cursor, state) =
      build (argument.onBytes bytes.toByteArray) (cursor.forward indexBytes.length, state) := by
  obtain ⟨countBytes, after, hcount, hplace⟩ := hc
  have hlt : index < arguments.length := (List.getElem?_eq_some_iff.1 hbytes).1
  have hbefore := reads_skipEach fun other ho => ha other (List.mem_of_mem_take (i := index) ho)
  rw [List.length_take_of_le (Nat.le_of_lt hlt)] at hbefore
  have hfirst := hplace.forward
  rw [flatten_eq_of_getElem? hbytes, List.append_assoc] at hfirst
  have hthere := hfirst.forward
  rw [List.append_assoc] at hthere
  rw [argumentOf_apply hcount hplace hi hsees, if_neg (Nat.not_le.2 hlt),
    aside_read_bind_apply hbefore hfirst]
  exact hb.aside_apply hthere _ state

end

/-- A generic parameter is dealt with behind its first byte. -/
theorem parameterBy_typeParameter {lookup : EnumLookup σ}
    {onVector onGeneric : Decoding σ (Option ArgumentType)} {back : List UInt8} {cursor : Cursor}
    (hsees : cursor.Sees ([Element.typeParameter.code] ++ back)) (state : σ) :
    assembly.parameterBy lookup onVector onGeneric (cursor, state) =
        onGeneric (cursor.forward 1, state) ∧
      (cursor.forward 1).Sees back := by
  refine ⟨?_, hsees.forward⟩
  rw [parameterBy, read_bind_apply (Cursor.reads_byte _) hsees]
  rfl

/-- **Where arguments are settled by their bytes, they can be put for generic parameters.** -/
theorem substitutes_parameterBy {lookup : EnumLookup σ} {context : Cursor}
    {onVector alone : Decoding σ (Option ArgumentType)} (hc : BeforeArguments context arguments)
    (ha : ∀ bytes ∈ arguments, IsArgument bytes)
    (hs : ∀ bytes ∈ arguments, SettledBy alone bytes) :
    Substitutes (assembly.parameterBy lookup onVector (argumentOf context alone)) alone
      arguments := by
  constructor
  · intro index indexBytes bytes back cursor state hi hbytes hsees
    obtain ⟨hgeneric, hbehind⟩ := parameterBy_typeParameter hsees state
    rw [hgeneric, Nat.add_comm, ← Cursor.forward_forward]
    exact argumentOf_apply_of_getElem? hc ha (hs bytes (List.mem_of_getElem? hbytes)) hi hbytes
      hbehind state
  · intro index indexBytes back cursor state hi hle hsees
    obtain ⟨hgeneric, hbehind⟩ := parameterBy_typeParameter hsees state
    obtain ⟨countBytes, after, hcount, hplace⟩ := hc
    rw [hgeneric, Nat.add_comm, ← Cursor.forward_forward,
      argumentOf_apply hcount hplace hi hbehind, if_pos hle]
    rfl

/-! ## Values -/

/-- Passes over values, given how the type of each is found. -/
def skipTypes (lookup : EnumLookup σ) : List (Attempt σ (Option ArgumentType)) → Decoding σ Bool
  | [] => pure true
  | type :: types => do
    match ← build type with
    | none => pure false
    | some type => do
      if ← skipArgument lookup type then skipTypes lookup types else pure false

/-- Generic parameters, each by its number and with the argument that it stands for. -/
def StandFor (parameters : List (List UInt8 × List UInt8)) (arguments : List (List UInt8)) : Prop :=
  ∀ parameter ∈ parameters, ∃ index, Cursor.Reads Compressed.number parameter.1 index ∧
    arguments[index]? = some parameter.2

/-- The bytes of generic parameters in a signature. -/
def typeParameters (parameters : List (List UInt8 × List UInt8)) : List UInt8 :=
  parameters.flatMap fun parameter => Element.typeParameter.code :: parameter.1

/-- All parameters of a constructor are found with the same context: the values are passed over by
    the types that their arguments have on their own. -/
theorem skipFixed_typeParameters {lookup : EnumLookup σ} {context : Cursor}
    (hs : Substitutes (assembly.parameterType lookup (some context))
      (assembly.parameterType lookup none) arguments)
    {parameters : List (List UInt8 × List UInt8)} (hp : StandFor parameters arguments)
    {signature : Cursor} {back : List UInt8}
    (hsees : signature.Sees (typeParameters parameters ++ back)) :
    assembly.skipFixed lookup (some context) parameters.length signature =
      skipTypes lookup (parameters.map fun parameter =>
        (assembly.parameterType lookup none).onBytes parameter.2.toByteArray) := by
  induction parameters generalizing signature with
  | nil => rfl
  | cons parameter parameters ih =>
    obtain ⟨index, hi, hbytes⟩ := hp parameter List.mem_cons_self
    rw [typeParameters, List.flatMap_cons, List.append_assoc] at hsees
    have hrest := ih (fun other ho => hp other (List.mem_cons_of_mem parameter ho)) hsees.forward
    have hfound : ∀ state, assembly.parameterType lookup (some context) (signature, state) =
        build ((assembly.parameterType lookup none).onBytes parameter.2.toByteArray)
          (signature.forward (parameter.1.length + 1), state) :=
      fun state => hs.argument state hi hbytes hsees
    funext ⟨cursor, state⟩
    rw [List.length_cons, skipFixed, List.map_cons, skipTypes, bind_apply, bind_apply, aside,
      hfound]
    simp only [build, onPart]
    rcases (assembly.parameterType lookup none).onBytes parameter.2.toByteArray state with
      ⟨fault | _ | type, state'⟩
    · rfl
    · rfl
    · show (skipArgument lookup type >>= _) _ = (skipArgument lookup type >>= _) _
      rw [← hrest]
      rfl

/-- **A constructor whose parent is a generic type has a context. With it, a generic parameter is as
    good as the argument of its number on its own, also as the element of an array; one beyond the
    arguments is a fault. The context is good for one parameter after the other.** -/
theorem parameterType_typeParameter (h : assembly.ConstructedOn constructor arguments) :
    ∃ context, assembly.genericContext constructor = .ok (some context) ∧
      ∀ lookup : EnumLookup σ,
        Substitutes (assembly.parameterType lookup (some context))
          (assembly.parameterType lookup none) arguments ∧
        Substitutes (assembly.elementTypeWithin lookup context) (assembly.elementType lookup)
          arguments ∧
        ∀ parameters signature back, StandFor parameters arguments →
          signature.Sees (typeParameters parameters ++ back) →
          assembly.skipFixed lookup (some context) parameters.length signature =
            skipTypes lookup (parameters.map fun parameter =>
              (assembly.parameterType lookup none).onBytes parameter.2.toByteArray) := by
  obtain ⟨context, hcontext, hbefore⟩ := genericContext_of_constructedOn h
  refine ⟨context, hcontext, fun lookup => ?_⟩
  have hwhole : Substitutes (assembly.parameterType lookup (some context))
      (assembly.parameterType lookup none) arguments := by
    refine substitutes_parameterBy hbefore h.arguments fun bytes hbytes => ?_
    obtain ⟨tree, -, hread⟩ := (h.arguments bytes hbytes).reads
    exact plainType_settled hread
  refine ⟨hwhole, ?_, fun _ _ _ hp hsees => skipFixed_typeParameters hwhole hp hsees⟩
  refine substitutes_parameterBy hbefore h.arguments fun bytes hbytes => ?_
  obtain ⟨tree, -, hread⟩ := (h.arguments bytes hbytes).reads
  exact elementType_settled hread

end

/-- A specification of a generic type with three arguments: a generic type, a text and an array. -/
def constructedRows : TableId → List (List UInt8)
  | .typeSpec => [[1, 0]]
  | _ => []

/-- An assembly that has only a specification. -/
def constructed : Assembly :=
  .ofRows constructedRows [0]
    [0, 12, 0x15, 0x12, 0x05, 0x03, 0x15, 0x11, 0x05, 0x01, 0x08, 0x0E, 0x1D, 0x08] {}

/-- A constructor of what is specified. -/
def constructedBy : MemberRefRow :=
  { rid := 1, parent := { table := .typeSpec, row := 1 }, name := 0, signature := 0 }

/-- No enum is known. -/
def noEnums : EnumLookup Unit := fun _ => pure none

/-- The third argument, which stands behind two of different lengths, and one beyond it. -/
theorem parameterType_typeParameter_third :
    ∃ context, constructed.genericContext constructedBy = .ok (some context) ∧
      constructed.parameterType noEnums (some context) ({ data := ⟨#[0x13, 0x02, 0x13]⟩ }, ()) =
        (.ok (some (.vector (.primitive .int32))),
          ({ data := ⟨#[0x13, 0x02, 0x13]⟩, pos := 2 }, ())) ∧
      constructed.parameterType noEnums (some context) ({ data := ⟨#[0x13, 0x03]⟩ }, ()) =
        (.error (.malformed (.genericParameter 3 3)),
          ({ data := ⟨#[0x13, 0x03]⟩, pos := 2 }, ())) := by
  have htoken : Cursor.Reads Compressed.token (Compressed.encodeToken .typeRef 1)
      (Token.ofRow .typeRef 1) := Compressed.reads_token (.inr (.inl rfl)) (by decide)
  have hhandle : IsHandle [0x12, 0x05] (Token.ofRow .typeRef 1) :=
    ⟨.classType, [0x05], .inl rfl, rfl, htoken⟩
  have htwo : Cursor.Reads Compressed.number [0x02] 2 :=
    Compressed.reads_number (n := 2) (by decide)
  have hthree : Cursor.Reads Compressed.number [0x03] 3 :=
    Compressed.reads_number (n := 3) (by decide)
  have hconstructed : constructed.ConstructedOn constructedBy
      [[0x15, 0x11, 0x05, 0x01, 0x08], [0x0E], [0x1D, 0x08]] := by
    refine ⟨rfl, ⟨⟨1, 1⟩, _, _, [], _, rfl, hhandle, hthree, rfl⟩, ?_⟩
    have hlist : IsArgument [0x15, 0x11, 0x05, 0x01, 0x08] :=
      @isArgument_of_type _ (.instantiation (.reference (Token.ofRow .typeRef 1) .valueType)
        [.primitive .int32]) _ rfl rfl rfl
    have htext : IsArgument [0x0E] := @isArgument_of_type _ (.primitive .string) _ rfl rfl rfl
    have harray : IsArgument [0x1D, 0x08] :=
      @isArgument_of_type _ (.vector (.primitive .int32)) _ rfl rfl rfl
    simp [hlist, htext, harray]
  obtain ⟨context, hcontext, hsame⟩ := parameterType_typeParameter hconstructed
  obtain ⟨hparameter, -, -⟩ := hsame noEnums
  have hthird := hparameter.argument () htwo rfl (Cursor.sees_start [0x13, 0x02, 0x13])
  have hbeyond := hparameter.beyond () hthree (Nat.le_refl 3) (Cursor.sees_start [0x13, 0x03])
  exact ⟨context, hcontext, hthird, hbeyond⟩

end Assembly

end ApiCensus
