/-
  The handle of a specification is as good as the type that it stands for.

  * `SignatureType.WrittenAlike`: two trees have the same text, as far as they have one.
  * `Assembly.typeText_agree`: how many levels are left decides whether a type has a text, but not
    which.
  * `Assembly.documented_spliced`: with the bytes of the type in place of the handle, the texts of
    a signature are the same.
-/
import ApiCensus.Assembly.Documentation
import ApiCensus.Proofs.Assembly.Owners
import ApiCensus.Proofs.Signature.Splicing
import ApiCensus.Proofs.Signature.Tracking

namespace ApiCensus

open Attempt Signature Signature.Decoding

variable {α β : Type}

/-! ## Trees with the same text -/

section
variable {builder : TypeBuilder Unit α}

/-- The steps of the builder make the same of both trees, as far as they end well. -/
def SignatureType.WrittenAlike (builder : TypeBuilder Unit α) (tree tree' : SignatureType) : Prop :=
  ∀ a a', tree.fold builder () = (.ok a, ()) → tree'.fold builder () = (.ok a', ()) → a = a'

open SignatureType

theorem alike_around {shape : SignatureType → SignatureType} {step : α → Attempt Unit α}
    (hshape : ∀ tree, (shape tree).fold builder = tree.fold builder >>= step)
    {tree tree' : SignatureType} (h : WrittenAlike builder tree tree') :
    WrittenAlike builder (shape tree) (shape tree') := by
  intro a a' ha ha'
  rw [hshape] at ha ha'
  obtain ⟨part, _, hpart, hstep⟩ := bind_eq_ok ha
  obtain ⟨part', _, hpart', hstep'⟩ := bind_eq_ok ha'
  obtain rfl := h part part' hpart hpart'
  exact Except.ok.inj (congrArg Prod.fst (hstep.symm.trans hstep'))

theorem foldEach_alike {trees trees' : List SignatureType}
    (h : List.Forall₂ (WrittenAlike builder) trees trees') {as as' : List α}
    (has : foldEach builder trees () = (.ok as, ()))
    (has' : foldEach builder trees' () = (.ok as', ())) : as = as' := by
  induction h generalizing as as' with
  | nil => exact Except.ok.inj (congrArg Prod.fst (has.symm.trans has'))
  | cons hfirst _ ih =>
    rw [foldEach] at has has'
    obtain ⟨first, _, ha, hrest⟩ := bind_eq_ok has
    obtain ⟨rest, _, hr, hlist⟩ := bind_eq_ok hrest
    obtain ⟨first', _, ha', hrest'⟩ := bind_eq_ok has'
    obtain ⟨rest', _, hr', hlist'⟩ := bind_eq_ok hrest'
    obtain rfl := hfirst first first' ha ha'
    obtain rfl := ih hr hr'
    exact Except.ok.inj (congrArg Prod.fst (hlist.symm.trans hlist'))

theorem foldMethod_alike {signature signature' : MethodSignature SignatureType}
    (h : MethodSignature.Related (WrittenAlike builder) signature signature')
    {made made' : MethodSignature α} (hmade : foldMethod builder signature () = (.ok made, ()))
    (hmade' : foldMethod builder signature' () = (.ok made', ())) : made = made' := by
  obtain ⟨header, genericCount, requiredCount, returnType, parameters⟩ := signature
  obtain ⟨header', genericCount', requiredCount', returnType', parameters'⟩ := signature'
  obtain ⟨rfl, rfl, rfl, hreturn, hparameters⟩ := h
  rw [foldMethod] at hmade hmade'
  obtain ⟨result, _, hresult, hrest⟩ := bind_eq_ok hmade
  obtain ⟨listed, _, hlisted, hlast⟩ := bind_eq_ok hrest
  obtain ⟨result', _, hresult', hrest'⟩ := bind_eq_ok hmade'
  obtain ⟨listed', _, hlisted', hlast'⟩ := bind_eq_ok hrest'
  obtain rfl := hreturn result result' hresult hresult'
  obtain rfl := foldEach_alike hparameters hlisted hlisted'
  exact Except.ok.inj (congrArg Prod.fst (hlast.symm.trans hlast'))

theorem congruence_writtenAlike (builder : TypeBuilder Unit α) :
    Congruence (WrittenAlike builder) where
  refl _ _ _ ha ha' := Except.ok.inj (congrArg Prod.fst (ha.symm.trans ha'))
  vector := alike_around fun _ => by rw [fold]
  array shape := by
    have hshape : ∀ tree, (SignatureType.array tree shape).fold builder =
        tree.fold builder >>= fun element => builder.array element shape := fun _ => by rw [fold]
    exact alike_around hshape
  byReference := alike_around fun _ => by rw [fold]
  pointer := alike_around fun _ => by rw [fold]
  pinned := alike_around fun _ => by rw [fold]
  instantiation := by
    intro generic generic' arguments arguments' hgeneric harguments a a' ha ha'
    rw [fold] at ha ha'
    obtain ⟨made, _, hmade, hrest⟩ := bind_eq_ok ha
    obtain ⟨listed, _, hlisted, hstep⟩ := bind_eq_ok hrest
    obtain ⟨made', _, hmade', hrest'⟩ := bind_eq_ok ha'
    obtain ⟨listed', _, hlisted', hstep'⟩ := bind_eq_ok hrest'
    obtain rfl := hgeneric made made' hmade hmade'
    obtain rfl := foldEach_alike harguments hlisted hlisted'
    exact Except.ok.inj (congrArg Prod.fst (hstep.symm.trans hstep'))
  modified := by
    intro tree tree' modifier required h a a' ha ha'
    rw [fold] at ha ha'
    obtain ⟨made, _, hmade, hrest⟩ := bind_eq_ok ha
    obtain ⟨part, _, hpart, hstep⟩ := bind_eq_ok hrest
    obtain ⟨made', _, hmade', hrest'⟩ := bind_eq_ok ha'
    obtain ⟨part', _, hpart', hstep'⟩ := bind_eq_ok hrest'
    obtain rfl := Except.ok.inj (congrArg Prod.fst (hmade.symm.trans hmade'))
    obtain rfl := h part part' hpart hpart'
    exact Except.ok.inj (congrArg Prod.fst (hstep.symm.trans hstep'))
  functionPointer := by
    intro signature signature' h a a' ha ha'
    rw [fold] at ha ha'
    obtain ⟨made, _, hmade, hstep⟩ := bind_eq_ok ha
    obtain ⟨made', _, hmade', hstep'⟩ := bind_eq_ok ha'
    obtain rfl := foldMethod_alike h hmade hmade'
    exact Except.ok.inj (congrArg Prod.fst (hstep.symm.trans hstep'))

end

/-! ## Levels -/

/-- Two results that are the same where both are there. -/
def Agree (result result' : Except Fault α) : Prop :=
  ∀ a a', result = .ok a → result' = .ok a' → a = a'

theorem Agree.refl (result : Except Fault α) : Agree result result :=
  fun _ _ h h' => Except.ok.inj (h.symm.trans h')

theorem Agree.throw_left (fault : Fault) (result : Except Fault α) :
    Agree (throw fault) result :=
  fun _ _ h => nomatch h

theorem Agree.throw_right (fault : Fault) (result : Except Fault α) :
    Agree result (throw fault) :=
  fun _ _ _ h => nomatch h

theorem Agree.ite {c : Prop} [Decidable c] {result result' other other' : Except Fault α}
    (h : Agree result result') (ho : Agree other other') :
    Agree (if c then result else other) (if c then result' else other') := by
  by_cases hc : c
  · rwa [if_pos hc, if_pos hc]
  · rwa [if_neg hc, if_neg hc]

theorem Agree.bind {result result' : Except Fault α} {next next' : α → Except Fault β}
    (h : Agree result result') (hn : ∀ a, Agree (next a) (next' a)) :
    Agree (result >>= next) (result' >>= next') := by
  intro b b' hb hb'
  obtain ⟨a, ha, hb⟩ := except_bind_eq_ok hb
  obtain ⟨a', ha', hb'⟩ := except_bind_eq_ok hb'
  obtain rfl := h a a' ha ha'
  exact hn a b b' hb hb'

theorem tracks_of_agree {result result' : Except Fault α} (h : Agree result result') :
    Attempt.Tracks (σ := Unit) (τ := Unit) .both Eq (liftM result) (liftM result') := by
  intro s t hst
  rw [liftM_apply, liftM_apply]
  rcases result with fault | a
  · exact .firstFails (by simp)
  rcases result' with fault | a'
  · exact .secondFails rfl
  rw [h a a' rfl rfl]
  exact .same hst

theorem agree_of_tracks {attempt attempt' : Attempt Unit α}
    (h : Attempt.Tracks .both Eq attempt attempt') :
    Agree (attempt.result ()) (attempt'.result ()) := by
  intro a a' ha ha'
  have hends := h () () rfl
  rw [result] at ha ha'
  generalize attempt () = outcome, attempt' () = outcome' at hends ha ha'
  cases hends with
  | same => exact Except.ok.inj (ha.symm.trans ha')
  | firstFails => cases ha
  | secondFails => cases ha'

namespace Assembly

variable {assembly : Assembly}

theorem definitionText_agree (depth depth' : Nat) (type : TypeDefRow) :
    Agree (assembly.definitionText depth type) (assembly.definitionText depth' type) := by
  induction depth generalizing depth' type with
  | zero =>
    unfold definitionText
    refine (Agree.refl _).bind fun name => ?_
    cases assembly.declaringType? type.rid with
    | none => exact .refl _
    | some enclosing => exact (Agree.refl _).bind fun outer => .throw_left _ _
  | succ depth ih =>
    unfold definitionText
    refine (Agree.refl _).bind fun name => ?_
    cases assembly.declaringType? type.rid with
    | none => exact .refl _
    | some enclosing =>
      refine (Agree.refl _).bind fun outer => ?_
      cases depth' with
      | zero => exact .throw_right _ _
      | succ depth' => exact (ih depth' outer).bind fun _ => .refl _

theorem referenceText_agree (depth depth' : Nat) (type : TypeRefRow) :
    Agree (assembly.referenceText depth type) (assembly.referenceText depth' type) := by
  induction depth generalizing depth' type with
  | zero =>
    unfold referenceText
    refine (Agree.refl _).bind fun name => Agree.ite ?_ (.refl _)
    exact (Agree.refl _).bind fun outer => .throw_left _ _
  | succ depth ih =>
    unfold referenceText
    refine (Agree.refl _).bind fun name => Agree.ite ?_ (.refl _)
    refine (Agree.refl _).bind fun outer => ?_
    cases depth' with
    | zero => exact .throw_right _ _
    | succ depth' => exact (ih depth' outer).bind fun _ => .refl _

/-- With other levels left, the same texts are made, if the further signatures have the same. -/
theorem documentation_tracks {depth depth' : Nat}
    {specified specified' : ByteArray → Except Fault String}
    (h : ∀ blob, Agree (specified blob) (specified' blob)) :
    (assembly.documentation depth specified).Tracks .both Eq
      (assembly.documentation depth' specified') where
  primitive _ := Tracks.pure _
  definition _ _ := Tracks.bind_liftM fun row _ =>
    tracks_of_agree (definitionText_agree depth depth' row)
  reference _ _ := Tracks.bind_liftM fun row _ =>
    tracks_of_agree (referenceText_agree depth depth' row)
  specification _ _ := Tracks.bind_liftM fun _ _ => Tracks.bind_liftM fun blob _ =>
    tracks_of_agree (h blob)
  vector _ := Tracks.pure _
  array _ _ := Tracks.pure _
  byReference _ := Tracks.pure _
  pointer _ := Tracks.pure _
  pinned _ := Tracks.pure _
  instantiation _ _ := Tracks.pure _
  typeParameter _ := Tracks.pure _
  methodParameter _ := Tracks.pure _
  modified _ _ _ := Tracks.pure _
  functionPointer _ := Tracks.pure _

/-- **How many levels are left decides whether a type has a text, but not which.** -/
theorem typeText_agree (depth depth' : Nat) (blob : ByteArray) :
    Agree (assembly.typeText depth blob) (assembly.typeText depth' blob) := by
  induction depth generalizing depth' blob with
  | zero => exact .throw_left _ _
  | succ depth ih =>
    cases depth' with
    | zero => exact .throw_right _ _
    | succ depth' =>
      have hbuilders : (assembly.documentation depth (assembly.typeText depth)).Tracks .both Eq
          (assembly.documentation depth' (assembly.typeText depth')) :=
        documentation_tracks fun blob => ih depth' blob
      exact agree_of_tracks (onBytes_tracks (type_tracks hbuilders) (Nat.le_refl _))

end Assembly

/-! ## Signatures and their trees -/

/-- What is made from a kind of signature is made from its tree, which is read again wherever its
    bytes stand, also where types may nest deeper. -/
structure MadeFromTrees {β γ : Type} (decoding : Decoding Unit γ) (starts : Decoding (List Nat) β)
    (trees : Nat → Decoding Unit β) (steps : β → Attempt Unit γ) : Prop where
  mirrors : Decoding.Mirrors Unrelated decoding starts
  reads : ∀ data extra,
    Splices { data, place := data.size, old := [], new := [] } Eq starts (trees extra)
  follows : ∀ start stop b, trees 0 start = (.ok b, stop) →
    decoding.Follows start.1 stop.1 (steps b)

theorem types_madeFromTrees (builder : TypeBuilder Unit α) :
    MadeFromTrees (type builder) (startsWithin maxDepth)
      (fun extra => typeWithin TypeBuilder.tree (extra + maxDepth))
      (SignatureType.fold builder) where
  mirrors := mirrors_startsWithin builder maxDepth
  reads data extra := splices_types data extra maxDepth
  follows start stop tree h := by
    rw [Nat.zero_add] at h
    exact folds_typeWithin builder maxDepth start stop tree h

theorem methods_madeFromTrees (builder : TypeBuilder Unit α) :
    MadeFromTrees (method builder) (methodOf (startsWithin maxDepth))
      (fun extra => methodOf (typeWithin TypeBuilder.tree (extra + maxDepth)))
      (SignatureType.foldMethod builder) where
  mirrors := mirrors_methodOf (mirrors_startsWithin builder maxDepth)
  reads data extra := splices_methods data extra maxDepth
  follows start stop signature h := by
    rw [Nat.zero_add] at h
    exact follows_methodOf (folds_typeWithin builder maxDepth) h

section
variable {γ : Type} {decoding : Decoding Unit γ} {starts : Decoding (List Nat) β}
  {trees : Nat → Decoding Unit β} {steps : β → Attempt Unit γ} {made made' : γ}

theorem MadeFromTrees.exists_tree (h : MadeFromTrees decoding starts trees steps)
    {blob : ByteArray} (hmade : (decoding.onBytes blob).result () = .ok made) :
    ∃ b stop, starts ({ data := blob }, []) = (.ok b, stop) ∧
      (∀ extra, ∃ stop, trees extra ({ data := blob }, ()) = (.ok b, stop)) ∧
      steps b () = (.ok made, ()) := by
  rcases hrun : decoding ({ data := blob }, ()) with ⟨answer, stop⟩
  obtain rfl : answer = .ok made := by
    rw [← hmade, result, onBytes, hrun]
  obtain ⟨b, places, hstarts, -⟩ := h.mirrors _ made stop hrun []
  have hagain : ∀ extra, ∃ stop, trees extra ({ data := blob }, ()) = (.ok b, stop) := by
    intro extra
    obtain ⟨bytes, hpasses, hread⟩ := (h.reads blob extra).reads (Nat.zero_le _) hstarts
    obtain ⟨_, -, htrees⟩ := hread _ () _ hpasses.1 trivial
    exact ⟨_, htrees⟩
  obtain ⟨place, htrees⟩ := hagain 0
  obtain ⟨_, hsteps, -⟩ := h.follows _ place b htrees ()
  rw [hrun] at hsteps
  exact ⟨b, _, hstarts, hagain, Prod.ext (congrArg Prod.fst hsteps).symm rfl⟩

/-- With the splice, the same is made, if the same is made from related trees. -/
theorem MadeFromTrees.eq_of_splices (h : MadeFromTrees decoding starts trees steps)
    {before old new after : List UInt8} {S : β → β → Prop} {extra : Nat}
    (hs : Splices { data := (before ++ (old ++ after)).toByteArray, place := before.length
                    old, new } S starts (trees extra))
    (hS : ∀ b b', S b b' → steps b () = (.ok made, ()) → steps b' () = (.ok made', ()) →
      made = made')
    (hplace : before.length ∈ (starts ({ data := (before ++ (old ++ after)).toByteArray }, [])).2.2)
    (hmade : (decoding.onBytes (before ++ (old ++ after)).toByteArray).result () = .ok made)
    (hmade' : (decoding.onBytes (before ++ (new ++ after)).toByteArray).result () = .ok made') :
    made = made' := by
  obtain ⟨b, stop, hstarts, -, hsteps⟩ := h.exists_tree hmade
  obtain ⟨b', _, -, hagain, hsteps'⟩ := h.exists_tree hmade'
  rw [hstarts] at hplace
  obtain ⟨spliced, _, hrelated, hrun⟩ := hs.run hstarts hplace
  obtain ⟨_, htrees⟩ := hagain extra
  rw [hrun] at htrees
  obtain rfl := Except.ok.inj (congrArg Prod.fst htrees)
  exact hS b spliced hrelated hsteps hsteps'

end

/-! ## Specifications -/

namespace Assembly

variable {assembly : Assembly}

/-- A specification is written as the type that it stands for. -/
theorem alike_specification {token : Token} {row : TypeSpecRow} {data : ByteArray}
    {tree : SignatureType} {stop : Cursor × Unit}
    (hrow : assembly.row TypeSpecRow token.row = .ok row)
    (hblob : assembly.blob row.signature = .ok data)
    (htype : type TypeBuilder.tree ({ data }, ()) = (.ok tree, stop)) (form : NominalForm) :
    SignatureType.WrittenAlike assembly.outermost (.specification token form) tree := by
  intro text text' htext htext'
  have hspecified : assembly.typeText (maxDepth - 1) data = .ok text := by
    rw [SignatureType.fold] at htext
    obtain ⟨found, _, hfound, htext⟩ := bind_eq_ok htext
    obtain rfl := Except.ok.inj ((congrArg Prod.fst hfound).symm.trans hrow)
    obtain ⟨bytes, _, hbytes, htext⟩ := bind_eq_ok htext
    obtain rfl := Except.ok.inj ((congrArg Prod.fst hbytes).symm.trans hblob)
    exact congrArg Prod.fst htext
  have htree : assembly.typeText maxDepth data = .ok text' := by
    obtain ⟨_, hrun, -⟩ := folds_typeWithin assembly.outermost maxDepth _ stop tree htype ()
    rw [htext'] at hrun
    exact congrArg Prod.fst hrun
  exact typeText_agree _ _ data text text' hspecified htree

/-- **The handle of a specification is as good as the type that it stands for: if it stands in a
    type or in the signature of a method where a type begins, and the bytes of the type are put in
    its place, the texts are the same, as far as there are texts for both.** -/
theorem documented_spliced {before handle after : List UInt8} {token : Token} {row : TypeSpecRow}
    {data : ByteArray} {tree : SignatureType} {stop : Cursor}
    (hhandle : IsHandle handle token) (htable : token.table? = some .typeSpec)
    (hrow : assembly.row TypeSpecRow token.row = .ok row)
    (hblob : assembly.blob row.signature = .ok data)
    (htype : type TypeBuilder.tree ({ data }, ()) = (.ok tree, (stop, ()))) :
    let blob := (before ++ (handle ++ after)).toByteArray
    let expanded := (before ++ (data.data.toList.take stop.pos ++ after)).toByteArray
    (before.length ∈ typeStarts blob → ∀ text text', assembly.documentedType blob = .ok text →
      assembly.documentedType expanded = .ok text' → text = text') ∧
    (before.length ∈ methodStarts blob → ∀ signature signature',
      assembly.documentedMethod blob = .ok signature →
      assembly.documentedMethod expanded = .ok signature' → signature = signature') := by
  intro blob expanded
  have hreplaces : Replaces { data := blob, place := before.length, old := handle
                              new := data.data.toList.take stop.pos }
      (SignatureType.WrittenAlike assembly.outermost) maxDepth := by
    refine replaces_handle hhandle htable (fun limit => ?_) (alike_specification hrow hblob htype)
    rw [Nat.add_comm]
    exact reads_taken htype limit
  have htypes :=
    splices_startsWithin (congruence_writtenAlike assembly.outermost) hreplaces maxDepth
  constructor
  · intro hplace text text' htext htext'
    exact (types_madeFromTrees assembly.outermost).eq_of_splices htypes
      (fun tree tree' h => h text text') hplace htext htext'
  · intro hplace signature signature' hsignature hsignature'
    exact (methods_madeFromTrees assembly.outermost).eq_of_splices (splices_methodOf htypes)
      (fun _ _ h => foldMethod_alike h) hplace hsignature hsignature'

/-- A specification of an array of numbers, with a byte behind it. -/
def specifyingRows : TableId → List (List UInt8)
  | .typeSpec => [[1, 0]]
  | _ => []

/-- An assembly that has only a specification. -/
def specifying : Assembly :=
  .ofRows specifyingRows [0] [0, 3, 0x1D, 0x08, 0x41] {}

/-- An array of what is specified, and a method that takes a reference to it and a number. -/
theorem documented_spliced_array :
    (∃ text text', specifying.documentedType ⟨#[0x1D, 0x12, 0x06]⟩ = .ok text ∧
      specifying.documentedType ⟨#[0x1D, 0x1D, 0x08]⟩ = .ok text' ∧ text = text') ∧
    ∃ signature signature',
      specifying.documentedMethod ⟨#[0x00, 0x02, 0x01, 0x10, 0x12, 0x06, 0x08]⟩ = .ok signature ∧
      specifying.documentedMethod ⟨#[0x00, 0x02, 0x01, 0x10, 0x1D, 0x08, 0x08]⟩ = .ok signature' ∧
      signature = signature' := by
  have htoken : Cursor.Reads Compressed.token (Compressed.encodeToken .typeSpec 1)
      (Token.ofRow .typeSpec 1) := Compressed.reads_token (.inr (.inr rfl)) (by decide)
  have hhandle : IsHandle [0x12, 0x06] (Token.ofRow .typeSpec 1) :=
    ⟨.classType, [0x06], .inl rfl, rfl, htoken⟩
  have htable : (Token.ofRow .typeSpec 1).table? = some .typeSpec := by decide
  have hrow : specifying.row TypeSpecRow (Token.ofRow .typeSpec 1).row = .ok ⟨1, 1⟩ := rfl
  have hblob : specifying.blob 1 = .ok ⟨#[0x1D, 0x08, 0x41]⟩ := rfl
  have htype : type TypeBuilder.tree ({ data := ⟨#[0x1D, 0x08, 0x41]⟩ }, ()) =
      (.ok (.vector (.primitive .int32)), ({ data := ⟨#[0x1D, 0x08, 0x41]⟩, pos := 2 }, ())) := rfl
  constructor
  · obtain ⟨text, htext⟩ : ∃ text, specifying.documentedType ⟨#[0x1D, 0x12, 0x06]⟩ = .ok text :=
      exists_ok_of_isOk (by decide +kernel)
    obtain ⟨text', htext'⟩ : ∃ text, specifying.documentedType ⟨#[0x1D, 0x1D, 0x08]⟩ = .ok text :=
      exists_ok_of_isOk (by decide +kernel)
    have hspliced := @documented_spliced specifying [0x1D] _ [] _ _ _ _ _ hhandle htable hrow hblob
      htype
    have hsame := hspliced.1 (by decide +kernel) text text' htext htext'
    exact ⟨text, text', htext, htext', hsame⟩
  · obtain ⟨signature, hsignature⟩ : ∃ signature, specifying.documentedMethod
        ⟨#[0x00, 0x02, 0x01, 0x10, 0x12, 0x06, 0x08]⟩ = .ok signature :=
      exists_ok_of_isOk (by decide +kernel)
    obtain ⟨signature', hsignature'⟩ : ∃ signature, specifying.documentedMethod
        ⟨#[0x00, 0x02, 0x01, 0x10, 0x1D, 0x08, 0x08]⟩ = .ok signature :=
      exists_ok_of_isOk (by decide +kernel)
    have hspliced := @documented_spliced specifying [0x00, 0x02, 0x01, 0x10] _ [0x08] _ _ _ _ _
      hhandle htable hrow hblob htype
    have hsame := hspliced.2 (by decide +kernel) signature signature' hsignature hsignature'
    exact ⟨signature, signature', hsignature, hsignature', hsame⟩

end Assembly

end ApiCensus
