/-
  How a computation that may fail runs.

  * `except_bind_eq_ok`, `mem_iff_of_mapM_eq_ok`: results that need no state; `eq_ok_of_toOption`,
    `exists_ok_of_map` and `exists_ok_of_isOk` for those that can be computed.
  * `Attempt.bind_apply` and its companions: a run, step by step.
  * `Attempt.Keeps`: what holds of the state before a run holds of it after the run, however
    the run ends; `Keeps.bind` and its companions derive it from the steps.
  * `Attempt.Tracks`: two runs end alike; `Tracks.bind` and its companions derive it from the
    steps.
-/
import ApiCensus.Fault

namespace ApiCensus

variable {σ τ α β : Type}

/-! ## Results -/

theorem except_bind_eq_ok {result : Except Fault α} {next : α → Except Fault β} {b : β}
    (h : (result >>= next) = .ok b) : ∃ a, result = .ok a ∧ next a = .ok b := by
  cases result with
  | error fault => simp [bind, Except.bind] at h
  | ok a => exact ⟨a, rfl, h⟩

theorem eq_ok_of_toOption {result : Except Fault α} {a : α}
    (h : result.toOption = some a) : result = .ok a := by
  cases result with
  | error fault => cases h
  | ok b => rw [Option.some.inj h]

theorem exists_ok_of_map {result : Except Fault α} {f : α → β} {b : β}
    (h : result.toOption.map f = some b) : ∃ a, result = .ok a ∧ f a = b := by
  obtain ⟨a, ha, hb⟩ := Option.map_eq_some_iff.1 h
  exact ⟨a, eq_ok_of_toOption ha, hb⟩

theorem exists_ok_of_isOk {result : Except Fault α} (h : result.isOk = true) :
    ∃ a, result = .ok a := by
  cases result with
  | error fault => cases h
  | ok a => exact ⟨a, rfl⟩

theorem mem_iff_of_mapM_eq_ok {f : α → Except Fault β} {items : List α} {results : List β}
    (h : items.mapM f = .ok results) (b : β) : b ∈ results ↔ ∃ a ∈ items, f a = .ok b := by
  induction items generalizing results with
  | nil =>
    obtain rfl : results = [] := by simpa [pure, Except.pure] using h.symm
    simp
  | cons item items ih =>
    rw [List.mapM_cons] at h
    obtain ⟨first, hf, h⟩ := except_bind_eq_ok h
    obtain ⟨rest, hr, h⟩ := except_bind_eq_ok h
    obtain rfl : first :: rest = results := by simpa [pure, Except.pure] using h
    simp [ih hr, hf, eq_comm (a := b)]

theorem mem_of_mapM_eq_ok {f : α → Except Fault β} {items : List α} {results : List β} {b : β}
    (h : items.mapM f = .ok results) (hb : b ∈ results) : ∃ a ∈ items, f a = .ok b :=
  (mem_iff_of_mapM_eq_ok h b).1 hb

/-- Results that tell what they were made from. -/
theorem map_eq_of_mapM_eq_ok {γ : Type} {f : α → Except Fault β} {g : β → γ} {g' : α → γ}
    {items : List α} {results : List β} (hg : ∀ a b, f a = .ok b → g b = g' a)
    (h : items.mapM f = .ok results) : results.map g = items.map g' := by
  induction items generalizing results with
  | nil =>
    obtain rfl : results = [] := by simpa [pure, Except.pure] using h.symm
    rfl
  | cons item items ih =>
    rw [List.mapM_cons] at h
    obtain ⟨first, hf, h⟩ := except_bind_eq_ok h
    obtain ⟨rest, hr, h⟩ := except_bind_eq_ok h
    obtain rfl : first :: rest = results := by simpa [pure, Except.pure] using h
    rw [List.map_cons, List.map_cons, hg item first hf, ih hr]

theorem mapM_eq_ok_self {f : α → Except Fault β} {g : β → α} {results : List β}
    (h : ∀ b ∈ results, f (g b) = .ok b) : (results.map g).mapM f = .ok results := by
  induction results with
  | nil => rfl
  | cons first rest ih =>
    have hrest := ih fun b hb => h b (List.mem_cons_of_mem first hb)
    rw [List.map_cons, List.mapM_cons, h first List.mem_cons_self, hrest]
    rfl

namespace Attempt

/-! ## Steps of a run -/

@[simp] theorem pure_apply (a : α) (s : σ) : (pure a : Attempt σ α) s = (.ok a, s) := rfl

@[simp] theorem throw_apply (fault : Fault) (s : σ) :
    (throw fault : Attempt σ α) s = (.error fault, s) := rfl

@[simp] theorem malformed_apply (cause : Malformation) (s : σ) :
    (malformed cause : Attempt σ α) s = (.error (.malformed cause), s) := rfl

@[simp] theorem liftM_apply (result : Except Fault α) (s : σ) :
    (liftM result : Attempt σ α) s = (result, s) := rfl

@[simp] theorem get_apply (s : σ) : (get : Attempt σ σ) s = (.ok s, s) := rfl

@[simp] theorem modify_apply (f : σ → σ) (s : σ) :
    (modify f : Attempt σ Unit) s = (.ok (), f s) := rfl

theorem bind_apply (attempt : Attempt σ α) (next : α → Attempt σ β) (s : σ) :
    (attempt >>= next) s =
      match attempt s with
      | (.ok a, s') => next a s'
      | (.error fault, s') => (.error fault, s') := by
  show ExceptT.bind attempt next s = _
  simp only [ExceptT.bind, ExceptT.mk, bind, StateT.bind, ExceptT.bindCont]
  rcases attempt s with ⟨_ | _, s'⟩ <;> rfl

theorem bind_apply_ok {attempt : Attempt σ α} {next : α → Attempt σ β} {s s' : σ} {a : α}
    (h : attempt s = (.ok a, s')) : (attempt >>= next) s = next a s' := by
  rw [bind_apply, h]

theorem bind_apply_error {attempt : Attempt σ α} {next : α → Attempt σ β} {s s' : σ}
    {fault : Fault} (h : attempt s = (.error fault, s')) :
    (attempt >>= next) s = (.error fault, s') := by
  rw [bind_apply, h]

theorem map_apply (f : α → β) (attempt : Attempt σ α) (s : σ) :
    (f <$> attempt) s = ((attempt s).1.map f, (attempt s).2) := by
  rw [map_eq_pure_bind, bind_apply]
  rcases attempt s with ⟨_ | _, _⟩ <;> rfl

theorem bind_liftM_ok (a : α) (next : α → Attempt σ β) :
    (liftM (.ok a : Except Fault α) >>= next) = next a := rfl

/-! ## Runs that end well -/

theorem bind_eq_ok {attempt : Attempt σ α} {next : α → Attempt σ β} {s s' : σ} {b : β}
    (h : (attempt >>= next) s = (.ok b, s')) :
    ∃ a t, attempt s = (.ok a, t) ∧ next a t = (.ok b, s') := by
  rw [bind_apply] at h
  rcases hr : attempt s with ⟨fault | a, t⟩
  · rw [hr] at h
    exact absurd (congrArg Prod.fst h) (by simp)
  · rw [hr] at h
    exact ⟨a, t, rfl, h⟩

theorem pure_eq_ok {a b : α} {s s' : σ} (h : (pure a : Attempt σ α) s = (.ok b, s')) :
    a = b ∧ s = s' := by
  obtain ⟨hresult, hstate⟩ := Prod.mk.inj h
  exact ⟨Except.ok.inj hresult, hstate⟩

/-! ## What a run keeps -/

/-- What holds of the state before a run holds of it afterwards, however the run ends. -/
def Keeps (P : σ → Prop) (attempt : Attempt σ α) : Prop :=
  ∀ s, P s → P (attempt s).2

section
variable {P : σ → Prop} {attempt : Attempt σ α} {next : α → Attempt σ β}

theorem Keeps.pure (a : α) : Keeps P (Pure.pure a : Attempt σ α) :=
  fun _ h => h

theorem Keeps.throw (fault : Fault) : Keeps P (MonadExcept.throw fault : Attempt σ α) :=
  fun _ h => h

theorem Keeps.bind (ha : Keeps P attempt) (hn : ∀ a, Keeps P (next a)) :
    Keeps P (attempt >>= next) := by
  intro s hs
  have ht := ha s hs
  rw [bind_apply]
  rcases hr : attempt s with ⟨fault | a, t⟩ <;> rw [hr] at ht
  · exact ht
  · exact hn a t ht

theorem Keeps.ite {c : Prop} [Decidable c] {other : Attempt σ α} (ha : c → Keeps P attempt)
    (ho : ¬ c → Keeps P other) : Keeps P (if c then attempt else other) := by
  by_cases hc : c
  · rw [if_pos hc]
    exact ha hc
  · rw [if_neg hc]
    exact ho hc

/-- What a run finds out without the state is known to what follows. -/
theorem Keeps.bind_liftM {result : Except Fault α} (hn : ∀ a, result = .ok a → Keeps P (next a)) :
    Keeps P (liftM result >>= next) := by
  intro s hs
  rw [bind_apply, liftM_apply]
  cases hr : result with
  | error fault => exact hs
  | ok a => exact hn a hr s hs

theorem Keeps.forM {items : List α} {step : α → Attempt σ Unit}
    (h : ∀ item ∈ items, Keeps P (step item)) : Keeps P (items.forM step) := by
  induction items with
  | nil => exact Keeps.pure ()
  | cons item items ih =>
    show Keeps P (step item >>= fun _ => items.forM step)
    exact Keeps.bind (h item (by simp)) fun _ => ih fun other ho => h other (by simp [ho])

/-- What one of several steps brings about is still so when all of them have ended well. -/
theorem forM_brings {items : List α} {item : α} {step : α → Attempt σ Unit} {s s' : σ}
    (hm : item ∈ items) (hk : ∀ other ∈ items, Keeps P (step other))
    (hi : ∀ t t', step item t = (.ok (), t') → P t')
    (h : items.forM step s = (.ok (), s')) : P s' := by
  induction items generalizing s with
  | nil => simp at hm
  | cons first items ih =>
    have hb : (step first >>= fun _ => items.forM step) s = (.ok (), s') := h
    obtain ⟨_, t, hf, hr⟩ := bind_eq_ok hb
    rcases List.mem_cons.1 hm with rfl | hm
    · have hrest : Keeps P (items.forM step) := Keeps.forM fun other ho => hk other (by simp [ho])
      have ht := hrest t (hi s t hf)
      rwa [hr] at ht
    · exact ih hm (fun other ho => hk other (by simp [ho])) hr

end

/-! ## Two runs side by side -/

/-- Which of two runs are known to end well. -/
inductive Given where
  | nothing | first | both

/-- Two runs end alike, as far as it is known that they end well: with the same answer or fault,
    in related states. -/
inductive EndAlike (given : Given) (R : σ → τ → Prop) :
    Except Fault α × σ → Except Fault α × τ → Prop
  | same {result : Except Fault α} {s : σ} {t : τ} (related : R s t) :
    EndAlike given R (result, s) (result, t)
  | firstFails {fault : Fault} {s : σ} {outcome : Except Fault α × τ} (h : given ≠ .nothing) :
    EndAlike given R (.error fault, s) outcome
  | secondFails {fault : Fault} {outcome : Except Fault α × σ} {t : τ} (h : given = .both) :
    EndAlike given R outcome (.error fault, t)

theorem EndAlike.mono {given : Given} {R S : σ → τ → Prop} {outcome : Except Fault α × σ}
    {outcome' : Except Fault α × τ} (h : EndAlike given R outcome outcome')
    (hRS : ∀ s t, R s t → S s t) : EndAlike given S outcome outcome' := by
  cases h with
  | same hR => exact .same (hRS _ _ hR)
  | firstFails hg => exact .firstFails hg
  | secondFails hg => exact .secondFails hg

/-- From related states on, the runs end alike. -/
def Tracks (given : Given) (R : σ → τ → Prop) (first : Attempt σ α) (second : Attempt τ α) : Prop :=
  ∀ s t, R s t → EndAlike given R (first s) (second t)

section
variable {given : Given} {R : σ → τ → Prop} {first : Attempt σ α} {second : Attempt τ α}
  {next : α → Attempt σ β} {next' : α → Attempt τ β}

theorem Tracks.refl (attempt : Attempt σ α) : Tracks given Eq attempt attempt := by
  rintro s _ rfl
  exact .same rfl

theorem Tracks.eq {attempt other : Attempt σ α} (h : Tracks .nothing Eq attempt other) :
    attempt = other := by
  funext s
  have hends := h s s rfl
  generalize attempt s = outcome, other s = outcome' at hends ⊢
  cases hends with
  | same hs => rw [hs]
  | firstFails hg => exact absurd rfl hg
  | secondFails hg => exact absurd hg (by simp)

theorem Tracks.pure (a : α) :
    Tracks given R (Pure.pure a : Attempt σ α) (Pure.pure a : Attempt τ α) :=
  fun _ _ h => .same h

theorem Tracks.throw (fault : Fault) :
    Tracks given R (MonadExcept.throw fault : Attempt σ α) (MonadExcept.throw fault) :=
  fun _ _ h => .same h

/-- A run that fails is no measure for another one. -/
theorem Tracks.of_throw (h : given ≠ .nothing) (fault : Fault) :
    Tracks given R (MonadExcept.throw fault : Attempt σ α) second :=
  fun _ _ _ => .firstFails h

theorem Tracks.bind (hf : Tracks given R first second)
    (hn : ∀ a, Tracks given R (next a) (next' a)) :
    Tracks given R (first >>= next) (second >>= next') := by
  intro s t hR
  have hends := hf s t hR
  rw [bind_apply, bind_apply]
  generalize first s = outcome, second t = outcome' at hends ⊢
  cases hends with
  | @same result s' t' hR' =>
    cases result with
    | error fault => exact .same hR'
    | ok a => exact hn a s' t' hR'
  | firstFails h => exact .firstFails h
  | secondFails h => exact .secondFails h

theorem Tracks.ite {c : Prop} [Decidable c] {other : Attempt σ α} {other' : Attempt τ α}
    (hf : c → Tracks given R first second) (ho : ¬ c → Tracks given R other other') :
    Tracks given R (if c then first else other) (if c then second else other') := by
  by_cases hc : c
  · rw [if_pos hc, if_pos hc]
    exact hf hc
  · rw [if_neg hc, if_neg hc]
    exact ho hc

/-- What is found out without the state is the same for both runs. -/
theorem Tracks.bind_liftM {result : Except Fault α}
    (hn : ∀ a, result = .ok a → Tracks given R (next a) (next' a)) :
    Tracks given R (liftM result >>= next) (liftM result >>= next') := by
  cases hr : result with
  | error fault => exact Tracks.throw fault
  | ok a => exact hn a hr

theorem Tracks.forM {items : List α} {step : α → Attempt σ Unit} {step' : α → Attempt τ Unit}
    (h : ∀ item ∈ items, Tracks given R (step item) (step' item)) :
    Tracks given R (items.forM step) (items.forM step') := by
  induction items with
  | nil => exact Tracks.pure ()
  | cons item items ih =>
    show Tracks given R (step item >>= fun _ => items.forM step)
      (step' item >>= fun _ => items.forM step')
    exact (h item (by simp)).bind fun _ => ih fun other ho => h other (by simp [ho])

end

end Attempt

end ApiCensus
