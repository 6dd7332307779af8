import CharacterRules.Proofs.Generation.Fill
import CharacterRules.Proofs.Prerequisite.Equality
import CharacterRules.Repair.Trim

/-!
What settling a budget changes. A trim replaces the value of a key that is not frozen by a smaller
positive number or removes it, and the comparison of the selections before and after finds every key
that changed.
-/

namespace CharacterRules.Ruleset

/-- What is left of a value after a trim. -/
def trimmed (category : Category) (value : Option Value) : Option Value :=
  let next := numberOrZero value - 1
  if Number.lt 0 next && category.toggleStart?.isNone then some (.number next) else none

theorem trimKey_eq_update (category : Category) (s : Selection) (key : String) :
    trimKey category s key = s.update key (trimmed category s[key]?) := by
  rw [trimKey, trimmed, Attributes.number]
  split <;> rfl

theorem leavesZero_trimmed (category : Category) (before value : Option Value) :
    LeavesZero before (trimmed category value) := by
  intro x start zero
  simp only [trimmed]
  split
  · rename_i positive
    exact .inr ⟨_, rfl, (Bool.and_eq_true_iff.mp positive).1⟩
  · exact .inl rfl

theorem mem_ownedKeys {r : Ruleset} {category : Category} {frozen : Std.TreeSet String}
    {s : Selection} {key : String} : key ∈ r.ownedKeys category frozen s ↔
      key ∈ r.spendingKeys category s ∧ truthy s[key]? = true ∧ key ∉ frozen := by
  rw [ownedKeys, List.mem_filter, Bool.and_eq_true, Bool.not_eq_true', ← Bool.not_eq_true,
    Std.TreeSet.contains_iff_mem]

theorem adjusts_trim {r : Ruleset} {b : Budget} {frozen : Std.TreeSet String} {fuel : Nat}
    {start s t : Selection} {random rest : Random} (h : Adjusts frozen start s)
    (ends : r.trim b frozen fuel s random = some (t, rest)) : Adjusts frozen start t := by
  induction fuel generalizing s random with
  | zero => cases ends
  | succ fuel ih =>
      rw [trim] at ends
      split at ends
      · split at ends
        · obtain ⟨rfl, -⟩ := Prod.mk.inj (Option.some.inj ends)
          exact h
        · rename_i key random chosen
          have owned := mem_ownedKeys.mp (Random.mem_of_choose? chosen)
          rw [trimKey_eq_update] at ends
          exact ih (h.update owned.2.2 _ (leavesZero_trimmed _ _ _)) ends
      · obtain ⟨rfl, -⟩ := Prod.mk.inj (Option.some.inj ends)
        exact h

theorem isDirect_category {fact : String} {b : Budget} (h : Budget.ofFact? fact = some b) :
    b.category.isDirect = false := by
  have picked : ∀ b ∈ Budget.all, b.category.isDirect = false := by decide
  exact picked b (List.mem_of_find?_eq_some h)

theorem adjusts_settle {r : Ruleset} {b : Budget} {frozen : Std.TreeSet String} {fuel : Nat}
    {s t : Selection} {sheet : Snapshot} {random rest : Random}
    (picked : b.category.isDirect = false)
    (h : r.settle fuel b frozen s sheet random = some (t, rest)) : Adjusts frozen s t := by
  rw [settle] at h
  split at h
  · exact adjusts_trim (.refl frozen s) h
  · obtain ⟨rfl, -⟩ := Prod.mk.inj (Option.some.inj h)
    exact r.adjusts_fill picked frozen s random

theorem mem_changedKeys {s t : Selection} {key : String} : key ∈ changedKeys s t ↔
    (∃ v, s[key]? = some v ∧ (t[key]? != some v) = true) ∨ s[key]? = none ∧ t[key]? ≠ none := by
  simp only [changedKeys, List.mem_append, List.mem_map, List.mem_filter, Prod.exists,
    Std.TreeMap.mem_toList_iff_getElem?_eq_some, Std.TreeMap.mem_keys,
    Std.TreeMap.mem_iff_isSome_getElem?, Option.isSome_iff_ne_none,
    Std.TreeMap.contains_eq_isSome_getElem?, Bool.not_eq_true', Option.isSome_eq_false_iff,
    Option.isNone_iff_eq_none]
  refine or_congr ⟨?_, ?_⟩ and_comm
  · rintro ⟨other, v, ⟨found, differs⟩, rfl⟩
    exact ⟨v, found, differs⟩
  · rintro ⟨v, found, differs⟩
    exact ⟨key, v, ⟨found, differs⟩, rfl⟩

/-- The comparison of two selections finds each key that was adjusted. -/
theorem mem_changedKeys_of_adjusts {frozen : Std.TreeSet String} {s t : Selection}
    (h : Adjusts frozen s t) {key : String} (changed : s[key]? ≠ t[key]?) :
    key ∉ frozen ∧ key ∈ changedKeys s t := by
  obtain ⟨free, leaves⟩ := (h key).resolve_left (Ne.symm changed)
  refine ⟨free, mem_changedKeys.mpr ?_⟩
  cases start : s[key]? with
  | none =>
      rw [start] at changed
      exact .inr ⟨rfl, changed.symm⟩
  | some v =>
      refine .inl ⟨v, rfl, ?_⟩
      cases now : t[key]? with
      | none => rfl
      | some w =>
          rw [start, now, Ne, Option.some.injEq] at changed
          show (!(w == v)) = true
          rw [Bool.not_eq_true', ← Bool.not_eq_true]
          intro equal
          cases v with
          | text text => exact changed (Value.beq_text_iff.mp equal).symm
          | number x =>
              obtain ⟨y, rfl, equal⟩ := Value.beq_number_iff.mp equal
              -- equal numbers that differ are two zeros, but a zero is not adjusted to a zero
              rcases Number.beq_iff.mp equal with ⟨rfl, -⟩ | ⟨again, zero⟩
              · exact changed rfl
              · rcases leaves x start zero with gone | ⟨z, raised, positive⟩
                · rw [now] at gone
                  cases gone
                · rw [now] at raised
                  cases raised
                  rw [Number.isZero_of_lt_zero positive] at again
                  cases again

end CharacterRules.Ruleset
