/-
  Crawls under look-ups that know more and more enums.

  * `Assembly.crawlsAlike_asked`: under such look-ups every step of the second crawl keeps the keys
    of the first one.
  * `Assembly.lookup_mono`: the longer list of arguments starts with the shorter one, and the
    larger set of keys holds the smaller one.
-/
import ApiCensus.Proofs.Api.Tracking
import ApiCensus.Proofs.Attribute.Knowledge

namespace ApiCensus

open Attempt

variable {σ τ : Type}

/-- Every key of the first set is in the second one. -/
def KeySet.Within (keys others : KeySet) : Prop :=
  ∀ key ∈ keys, key ∈ others

theorem KeySet.Within.insert {keys others : KeySet} (h : keys.Within others) (key : ApiKey) :
    (keys.insert key).Within (others.insert key) := by
  intro other ho
  rcases KeySet.mem_insert.1 ho with rfl | ho
  · exact KeySet.mem_insert.2 (Or.inl rfl)
  · exact KeySet.mem_insert.2 (Or.inr (h other ho))

namespace Assembly

variable {assembly : Assembly} {lookup : EnumLookup σ} {more : EnumLookup τ} {start : σ}
  {start' : τ}

theorem insertsAlike_asked : InsertsAlike (Asked lookup start more start' KeySet.Within) :=
  fun key _ _ ha => ⟨ha.first, ha.second, ha.kept.insert key⟩

/-- A key set that only grows still holds the keys of the other crawl. -/
theorem recordArgument_visitsMore (type : Nat) (argument : NamedArgument) (s : σ × KeySet) :
    Keeps (Asked lookup start more start' KeySet.Within s)
      (assembly.recordArgument type argument : Crawling τ Unit) := by
  refine recordArgument_keeps fun _ _ _ _ _ _ state keys ha => ?_
  exact ⟨ha.first, ha.second, fun key hkey => KeySet.mem_insert.2 (Or.inr (ha.kept key hkey))⟩

theorem recordArgument_ahead (h : lookup.ExtendedBy start more start') (type : Nat) :
    VisitsAhead (Asked lookup start more start' KeySet.Within)
      (Asked lookup start more start' KeySet.Within) lookup more (assembly.recordArgument type)
      (assembly.recordArgument type) where
  lookups := below_asked h KeySet.Within
  visits := recordArgument_tracks insertsAlike_asked type
  ends _ _ ha := ha
  asks _ name _ _ ha := ⟨.asked name ha.first, ha.second, ha.kept⟩
  asksMore _ name _ _ ha := ⟨ha.first, .asked name ha.second, ha.kept⟩
  visitsMore s argument := recordArgument_visitsMore type argument s

theorem crawlsAlike_asked (h : lookup.ExtendedBy start more start') :
    assembly.CrawlsAlike .both (Asked lookup start more start' KeySet.Within) lookup more where
  inserts := insertsAlike_asked
  attributes row := by
    refine Tracks.ite (fun _ => Tracks.bind_liftM fun constructor _ => ?_) fun _ => Tracks.pure ()
    refine Tracks.ite (fun _ s t hS => ?_) fun _ => Tracks.pure ()
    have hvisits : VisitsAhead _ _ lookup more (assembly.recordArgument constructor.parent.row)
        (assembly.recordArgument constructor.parent.row) := recordArgument_ahead h _
    have hends := assembly.eachNamedArgument_ahead hvisits row hS
    generalize assembly.eachNamedArgument (lookupBeside lookup) row _ s = outcome,
      assembly.eachNamedArgument (lookupBeside more) row _ t = outcome' at hends ⊢
    cases hends with
    | same ha => exact .same ha
    | @stopped result s' t' ha =>
      cases result with
      | error fault => exact .secondFails rfl
      | ok _ => exact .same ha

/-- **Knowing more enums loses nothing. What a walk over the named arguments of an attribute
    yields is yielded again before anything else, and where both crawls end well, the keys of the
    one are among the keys of the other.** -/
theorem lookup_mono (h : lookup.ExtendedBy start more start') :
    (∀ row, assembly.namedItems lookup row start <+: assembly.namedItems more row start') ∧
      ∀ limit keys keys' state state', assembly.crawl lookup limit start = (.ok keys, state) →
        assembly.crawl more limit start' = (.ok keys', state') → ∀ key ∈ keys, key ∈ keys' := by
  refine ⟨namedItems_mono h, fun limit keys keys' state state' hkeys hkeys' => ?_⟩
  have hinit : Asked lookup start more start' KeySet.Within (start, {}) (start', {}) :=
    ⟨.start, .start, fun _ hkey => hkey⟩
  have halike : assembly.CrawlsAlike .both _ lookup more := crawlsAlike_asked h
  have hlevels : LevelsAlike .both limit limit (limit + 1) (limit + 1) := Or.inl ⟨rfl, rfl⟩
  have hends := crawlAll_tracks halike hlevels _ _ hinit
  rw [crawlAll_of_crawl hkeys, crawlAll_of_crawl hkeys'] at hends
  cases hends with
  | same ha => exact ha.kept

/-! ## An example -/

/-- An attribute that sets two fields to values of different enums. -/
def tintedValue : List UInt8 :=
  [1, 0, 2, 0] ++ [0x53, 0x55, 4, 85, 44, 32, 89, 1, 70, 7] ++
    [0x53, 0x55, 4, 88, 44, 32, 89, 1, 71, 7]

/-- An assembly with that attribute. -/
def tinted : Assembly :=
  .ofRows attributedRows [0, 65, 0, 78, 0, 46, 99, 0]
    ([0, 3, 0x20, 0, 1, 24] ++ tintedValue) { attributes := RowIndex.group [(self, 1)] }

/-- The enum of the first field. -/
def tints : List KnownEnum :=
  [{ assembly := "Y", name := "U", type := .byte }]

/-- The enum of the second field. -/
def moreTints : List KnownEnum :=
  [{ assembly := "Y", name := "X", type := .sByte }]

theorem attributesOf_tinted :
    tinted.attributesOf self = .ok [⟨1, ⟨.assembly, 1⟩, ⟨.memberRef, 1⟩, 5⟩] := by
  rw [attributesOf]
  show tinted.rowsOf _ ((RowIndex.group [(self, 1)]).get self) = _
  rw [RowIndex.get_group]
  rfl

theorem crawl_tinted (table : List KnownEnum)
    (ht : table = tints ∨ table = moreTints ++ tints) :
    ∃ keys, tinted.crawl (EnumLookup.ofTable (σ := Unit) table) 100 () = (.ok keys, ()) := by
  have hok : (tinted.crawl (EnumLookup.ofTable (σ := Unit) table) 100 ()).1.isOk = true := by
    unfold crawl crawlAll crawlAttributes
    rw [attributesOf_tinted]
    rcases ht with rfl | rfl
    · decide +kernel
    · decide +kernel
  obtain ⟨keys, hkeys⟩ := exists_ok_of_isOk hok
  exact ⟨keys, Prod.ext hkeys rfl⟩

theorem lookup_mono_tinted :
    (EnumLookup.ofTable (σ := Unit) tints).ExtendedBy ()
        (EnumLookup.ofTable (σ := Unit) (moreTints ++ tints)) () ∧
      (∀ row, tinted.namedItems (EnumLookup.ofTable (σ := Unit) tints) row () <+:
        tinted.namedItems (EnumLookup.ofTable (σ := Unit) (moreTints ++ tints)) row ()) ∧
      ∃ keys keys',
        tinted.crawl (EnumLookup.ofTable (σ := Unit) tints) 100 () = (.ok keys, ()) ∧
        tinted.crawl (EnumLookup.ofTable (σ := Unit) (moreTints ++ tints)) 100 () =
          (.ok keys', ()) ∧
        ∀ key ∈ keys, key ∈ keys' := by
  have h : (EnumLookup.ofTable (σ := Unit) tints).ExtendedBy ()
      (EnumLookup.ofTable (σ := Unit) (moreTints ++ tints)) () :=
    EnumLookup.extendedBy_ofTable moreTints tints () ()
  obtain ⟨keys, hkeys⟩ := crawl_tinted tints (Or.inl rfl)
  obtain ⟨keys', hkeys'⟩ := crawl_tinted (moreTints ++ tints) (Or.inr rfl)
  exact ⟨h, (lookup_mono h).1, keys, keys', hkeys, hkeys',
    (lookup_mono h).2 100 keys keys' () () hkeys hkeys'⟩

end Assembly

end ApiCensus
