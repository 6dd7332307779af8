import CharacterRules.Generation.Fill
import CharacterRules.Proofs.Attributes.Lookup
import CharacterRules.Proofs.Number.Step

/-!
What filling a category changes. Only keys that are not frozen change, and the picks of one filling
only raise numbers, so that a zero never comes back, not even with the other sign: comparing the
values under a key tells whether it was changed.
-/

namespace CharacterRules

theorem Random.mem_of_choose? {α : Type} {alternatives : List α} {a : α} {random rest : Random}
    (h : random.choose? alternatives = (some a, rest)) : a ∈ alternatives := by
  cases alternatives with
  | nil => cases h
  | cons first others =>
      simp only [choose?, Prod.mk.injEq, Option.some.injEq] at h
      rw [← h.1]
      cases found : (first :: others)[(random.below (others.length + 1)).1]? with
      | none => exact List.mem_cons_self
      | some b => exact List.mem_of_getElem? found

theorem Random.exists_choose?_eq {α : Type} {alternatives : List α} (h : alternatives ≠ [])
    (random : Random) : ∃ a rest, random.choose? alternatives = (some a, rest) := by
  cases alternatives with
  | nil => exact absurd rfl h
  | cons first others => exact ⟨_, _, rfl⟩

/-- A zero is removed or replaced by a positive number; of other values nothing is said. -/
def LeavesZero (before after : Option Value) : Prop :=
  ∀ x, before = some (.number x) → x.isZero = true →
    after = none ∨ ∃ y, after = some (.number y) ∧ Number.lt 0 y = true

/-- A selection made of another one by changes of keys that are not frozen. -/
def Adjusts (frozen : Std.TreeSet String) (s t : Selection) : Prop :=
  ∀ key : String, t[key]? = s[key]? ∨ key ∉ frozen ∧ LeavesZero s[key]? t[key]?

namespace Adjusts

variable {frozen : Std.TreeSet String} {s t : Selection}

theorem refl (frozen : Std.TreeSet String) (s : Selection) : Adjusts frozen s s :=
  fun _ => .inl rfl

theorem update (h : Adjusts frozen s t) {key : String} (free : key ∉ frozen)
    (value : Option Value) (leaves : LeavesZero s[key]? value) :
    Adjusts frozen s (t.update key value) := by
  intro other
  by_cases same : other = key
  · subst same
    rw [Attributes.getElem?_update_self]
    exact .inr ⟨free, leaves⟩
  · rw [Attributes.getElem?_update_of_ne _ same]
    exact h other

theorem pick (h : Adjusts frozen s t) {p : Pick} (free : p.key ∉ frozen) :
    Adjusts frozen s (p.apply t) := by
  refine h.update free (some (.number (p.value t))) ?_
  intro x start zero
  refine .inr ⟨_, rfl, ?_⟩
  rw [Pick.value]
  cases p.effect with
  | toggle =>
      show Number.lt 0 1 = true
      decide
  | increment =>
      dsimp only
      rw [Attributes.number]
      rcases h p.key with same | ⟨-, leaves⟩
      · obtain ⟨n, rfl⟩ := Number.eq_signedZero_of_isZero zero
        have one : ∀ n, Number.lt 0 (Number.signedZero n + 1) = true := by decide
        rw [same, start]
        exact one n
      · rcases leaves x start zero with gone | ⟨y, raised, positive⟩
        · rw [gone]
          decide
        · rw [raised]
          exact Number.lt_zero_add_one positive

end Adjusts

theorem Ruleset.mem_of_choosePick? {r : Ruleset} {category : Category} {s : Selection}
    {picks : List Pick} {random rest : Random} {p : Pick}
    (h : r.choosePick? category s picks random = (some p, rest)) : p ∈ picks := by
  rw [choosePick?] at h
  dsimp only at h
  split at h
  · exact Random.mem_of_choose? h
  · rename_i preferred found
    have chosen := Random.mem_of_choose? h
    split at chosen
    · exact (List.mem_filter.mp chosen).1
    · exact chosen

namespace Filling

theorem not_mem_frozen_of_mem_candidates {f : Filling} {r : Ruleset} {pool : Option (List String)}
    {p : FillProgress} {sheet : Snapshot} {pick : Pick} (h : pick ∈ f.candidates r pool p sheet) :
    pick.key ∉ f.frozen := by
  have kept := (List.mem_filter.mp h).2
  rw [Bool.and_eq_true, Bool.not_eq_true', ← Bool.not_eq_true, Std.TreeSet.contains_iff_mem] at kept
  exact kept.1

theorem adjusts_attempt {f : Filling} {s : Selection} {p : FillProgress} (r : Ruleset)
    (h : Adjusts f.frozen s p.selection) (before : Snapshot) {pick : Pick}
    (free : pick.key ∉ f.frozen) : Adjusts f.frozen s (f.attempt r p before pick).selection := by
  simp only [attempt]
  split
  · exact h.pick free
  · exact h

theorem adjusts_run {f : Filling} {s : Selection} {p : FillProgress} (r : Ruleset)
    (pool : Option (List String)) (limit attempts : Nat) (random : Random)
    (h : Adjusts f.frozen s p.selection) :
    Adjusts f.frozen s (f.run r pool limit attempts p random).1.selection := by
  induction attempts generalizing p random with
  | zero => exact h
  | succ attempts ih =>
      rw [run]
      split
      · exact h
      · split
        · exact h
        · rename_i pick rest chosen
          have free := not_mem_frozen_of_mem_candidates (Ruleset.mem_of_choosePick? chosen)
          exact ih rest (adjusts_attempt r h _ free)

end Filling

namespace Ruleset

theorem adjusts_fillByPicks (r : Ruleset) (f : Filling) (s : Selection) (random : Random) :
    Adjusts f.frozen s (r.fillByPicks f s random).1.selection := by
  simp only [fillByPicks]
  refine Filling.adjusts_run r none _ _ _ ?_
  split
  · rw [fillPowerEdges]
    dsimp only
    split
    · exact Filling.adjusts_run r _ _ _ random (.refl f.frozen s)
    · exact .refl f.frozen s
  · exact .refl f.frozen s

theorem adjusts_fill (r : Ruleset) {category : Category} (picked : category.isDirect = false)
    (frozen : Std.TreeSet String) (s : Selection) (random : Random) :
    Adjusts frozen s (r.fill category frozen s random).1 := by
  rw [fill, picked, if_neg Bool.false_ne_true]
  split
  · exact .refl frozen s
  · exact r.adjusts_fillByPicks ⟨category, _, frozen⟩ s _

end Ruleset
end CharacterRules
