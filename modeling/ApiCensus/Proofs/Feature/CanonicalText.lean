/-
  Which facts the canonical text identifies.

  * `Fact.parts_of_toString`: the text tells the name of a fact and what the fact is about.
  * `Fact.toString_eq_iff`: two facts have one text only if they are about frameworks with one
    short name, and `Fact.toString_shared` are such facts.
  * `Fact.eq_of_toString`: there are none among the frameworks that are read from short names
    with numbers of one digit.
-/
import ApiCensus.Feature.Fact
import ApiCensus.Proofs.Framework.ShortName

namespace ApiCensus.Fact

theorem not_mem_name (fact : Fact) : '(' ∉ fact.name.toList := by
  cases fact <;> simp [name]

/-- What stands behind the name. -/
def behindName (fact : Fact) : List Char :=
  fact.topic?.elim [] fun topic => '(' :: (topic.toList ++ [')'])

theorem toList_toString (fact : Fact) :
    fact.toString.toList = fact.name.toList ++ fact.behindName := by
  rw [Fact.toString, behindName]
  cases fact.topic? <;> simp

/-- The name ends where the bracket opens. -/
theorem takeWhile_toString (fact : Fact) :
    fact.toString.toList.takeWhile (· ≠ '(') = fact.name.toList := by
  rw [toList_toString, List.takeWhile_append_of_pos]
  · rw [behindName]
    cases fact.topic? <;> simp
  · intro c hc
    simpa using ne_of_mem_of_not_mem hc fact.not_mem_name

theorem parts_of_toString {a b : Fact} (h : a.toString = b.toString) :
    a.name = b.name ∧ a.topic? = b.topic? := by
  have hname : a.name.toList = b.name.toList := by
    rw [← takeWhile_toString, h, takeWhile_toString]
  have hbehind : a.behindName = b.behindName := by
    have hlist := congrArg String.toList h
    rw [toList_toString, toList_toString, hname] at hlist
    exact List.append_cancel_left hlist
  refine ⟨String.toList_inj.1 hname, ?_⟩
  rw [behindName, behindName] at hbehind
  cases ha : a.topic? <;> cases hb : b.topic? <;> simp_all [String.toList_inj]

/-- Facts with one name that are about the same are equal, or about two frameworks. -/
theorem eq_or_targets {a b : Fact} (hname : a.name = b.name) (htopic : a.topic? = b.topic?) :
    a = b ∨ ∃ f g, a = .targets f ∧ b = .targets g ∧ f.shortName = g.shortName := by
  have hkey {key other : ApiKey} (h : key.id = other.id) : key = other := by
    cases key
    cases other
    simpa using h
  -- the names of the kinds are distinct, so the kinds agree
  cases a <;> cases b <;> simp [name] at hname
  case targets.targets f g => exact Or.inr ⟨f, g, rfl, rfl, Option.some.inj htopic⟩
  all_goals first
    | exact Or.inl rfl
    | exact Or.inl (congrArg _ (hkey (Option.some.inj htopic)))

/-- **Facts with one text.** -/
theorem toString_eq_iff (a b : Fact) :
    a.toString = b.toString ↔
      a = b ∨ ∃ f g, a = .targets f ∧ b = .targets g ∧ (f.Alias g ∨ g.Alias f) := by
  constructor
  · intro h
    obtain ⟨hname, htopic⟩ := parts_of_toString h
    obtain rfl | ⟨f, g, rfl, rfl, hshort⟩ := eq_or_targets hname htopic
    · exact Or.inl rfl
    · obtain rfl | halias := (TargetFramework.shortName_eq_iff f g).1 hshort
      · exact Or.inl rfl
      · exact Or.inr ⟨f, g, rfl, rfl, halias⟩
  · rintro (rfl | ⟨f, g, rfl, rfl, halias⟩)
    · rfl
    · have hshort := (TargetFramework.shortName_eq_iff f g).2 (Or.inr halias)
      rw [Fact.toString, Fact.toString, topic?, topic?, hshort]
      rfl

/-- The numbers 4 and 72 run together, and so do 4, 7 and 2. -/
theorem toString_shared :
    ∃ f g, TargetFramework.parse? "net4.72" = some f ∧ TargetFramework.parse? "net472" = some g ∧
      (targets f).toString = (targets g).toString ∧ targets f ≠ targets g :=
  ⟨_, _, rfl, rfl, by decide, by decide⟩

/-- A fact that is about a framework, if at all, then about one that was read from a short name
    with numbers of one digit. -/
def FromShortName (fact : Fact) : Prop :=
  ∀ f, fact = .targets f →
    f.version.OneDigit ∧ ∃ text, TargetFramework.parseShortName? text = some f

theorem eq_of_toString {a b : Fact} (ha : a.FromShortName) (hb : b.FromShortName)
    (h : a.toString = b.toString) : a = b := by
  obtain ⟨hname, htopic⟩ := parts_of_toString h
  obtain rfl | ⟨f, g, rfl, rfl, hshort⟩ := eq_or_targets hname htopic
  · rfl
  · obtain ⟨hfone, _, hf⟩ := ha f rfl
    obtain ⟨hgone, _, hg⟩ := hb g rfl
    rw [TargetFramework.eq_of_shortName (TargetFramework.plain_of_parseShortName? hf)
      (TargetFramework.plain_of_parseShortName? hg) hfone hgone hshort]

end ApiCensus.Fact
