import CharacterRules.Proofs.Attributes.Beginning
import CharacterRules.Proofs.Repair.Termination
import CharacterRules.Proofs.Ruleset.BaseRule

/-!
How far a trim reaches. An overspent budget is trimmed key by key, each time at one that its category
owns: other keys and frozen ones keep their values, and a key that is trimmed loses one point each time
until it is removed. The trims go on as long as the budget is overspent and something is owned, and no
longer.
-/

namespace CharacterRules
namespace Ruleset

variable {r : Ruleset} {b : Budget} {category : Category} {frozen : Std.TreeSet String}
  {s t : Selection} {key : String}

/-- Whether a category spends its points on a key: that of an ability of the catalog, or one with the
beginning of its choices. -/
def SpendsOn (r : Ruleset) (category : Category) (key : String) : Prop :=
  match category with
  | .attributes => ∃ name ∈ r.catalog.names "attributes", (Ability.ofAttribute name).allocation = key
  | .skills => ∃ name ∈ r.catalog.names "skills", (Ability.ofSkill name).allocation = key
  | other => ∃ start, other.toggleStart? = some start ∧ Text.startsWith key start = true

theorem mem_spendingKeys (chosen : key ∈ s) :
    key ∈ r.spendingKeys category s ↔ r.SpendsOn category key := by
  cases category with
  | attributes | skills => exact List.mem_map
  | hindrances | edges | powers | weapons | armor =>
      refine Attributes.mem_keysFrom.trans ((and_iff_right chosen).trans ?_)
      constructor
      · exact fun begins => ⟨_, rfl, begins⟩
      · rintro ⟨start, same, begins⟩
        obtain rfl := Option.some.inj same
        exact begins
  | era | race | gender | name | concept =>
      refine iff_of_false List.not_mem_nil ?_
      rintro ⟨start, none, -⟩
      cases none

theorem steps_of_spendsOn (spends : r.SpendsOn category key) (steps : category.toggleStart? = none) :
    category = .attributes ∨ category = .skills := by
  cases category with
  | attributes => exact .inl rfl
  | skills => exact .inr rfl
  | hindrances | edges | powers | weapons | armor => cases steps
  | era | race | gender | name | concept =>
      obtain ⟨start, none, -⟩ := spends
      cases none

/-- What is owned is what points are spent on, without what is turned off or frozen. -/
theorem mem_ownedKeys_iff : key ∈ r.ownedKeys category frozen s ↔
    r.SpendsOn category key ∧ truthy s[key]? = true ∧ key ∉ frozen := by
  rw [mem_ownedKeys]
  refine and_congr_left fun both => mem_spendingKeys ?_
  exact Std.TreeMap.mem_iff_isSome_getElem?.mpr (Option.isSome_of_any both.1)

/-- Repeated trims leave nothing or, of what is bought in steps, a positive number that is as many steps
lower. -/
theorem iterate_trimmed (category : Category) (n : Nat) (value : Option Value) :
    (trimmed category)^[n + 1] value = none ∨
      category.toggleStart? = none ∧ ∃ x, (trimmed category)^[n + 1] value = some (.number x) ∧
        Number.lt 0 x = true ∧ x = (· - 1)^[n + 1] (numberOrZero value) := by
  induction n with
  | zero =>
      rw [Function.iterate_one, Function.iterate_one, trimmed]
      split
      · rename_i more
        obtain ⟨positive, steps⟩ := Bool.and_eq_true_iff.mp more
        exact .inr ⟨Option.isNone_iff_eq_none.mp steps, _, rfl, positive, rfl⟩
      · exact .inl rfl
  | succ n ih =>
      rw [Function.iterate_succ_apply' (trimmed category) (n + 1),
        Function.iterate_succ_apply' (· - 1) (n + 1)]
      rcases ih with gone | ⟨steps, x, left, -, lowered⟩
      · have none : GoneAfter category 1 none := goneAfter_none 1
        rw [gone]
        exact .inl none
      · rw [left, trimmed, ← lowered]
        split
        · rename_i more
          exact .inr ⟨steps, _, rfl, (Bool.and_eq_true_iff.mp more).1, rfl⟩
        · exact .inl rfl

/-- The trims of a run, by the keys that are drawn one after another. -/
inductive Trims (r : Ruleset) (b : Budget) (frozen : Std.TreeSet String) :
    Selection → Random → List String → Selection → Random → Prop where
  | settled {s : Selection} (random : Random)
      (within : b.reportsOverspend (r.evaluate s) = false) : Trims r b frozen s random [] s random
  | exhausted {s : Selection} (random : Random)
      (none : r.ownedKeys b.category frozen s = []) : Trims r b frozen s random [] s random
  | trim {s t : Selection} {random next rest : Random} {key : String} {keys : List String}
      (overspent : b.reportsOverspend (r.evaluate s) = true)
      (drawn : random.choose? (r.ownedKeys b.category frozen s) = (some key, next))
      (later : Trims r b frozen (trimKey b.category s key) next keys t rest) :
      Trims r b frozen s random (key :: keys) t rest

theorem exists_trims_of_trim {fuel : Nat} {random rest : Random}
    (returns : r.trim b frozen fuel s random = some (t, rest)) :
    ∃ keys, r.Trims b frozen s random keys t rest := by
  induction fuel generalizing s random with
  | zero => cases returns
  | succ fuel ih =>
      rw [trim] at returns
      split at returns
      · rename_i overspent
        cases owned : r.ownedKeys b.category frozen s with
        | nil =>
            rw [owned] at returns
            obtain ⟨rfl, rfl⟩ := Prod.mk.inj (Option.some.inj returns)
            exact ⟨[], .exhausted _ owned⟩
        | cons first others =>
            have some : r.ownedKeys b.category frozen s ≠ [] := owned ▸ List.cons_ne_nil first others
            obtain ⟨key, next, drawn⟩ := Random.exists_choose?_eq some random
            rw [drawn] at returns
            obtain ⟨keys, later⟩ := ih returns
            exact ⟨key :: keys, .trim overspent drawn later⟩
      · rename_i within
        obtain ⟨rfl, rfl⟩ := Prod.mk.inj (Option.some.inj returns)
        exact ⟨[], .settled _ (Bool.eq_false_iff.mpr within)⟩

namespace Trims

variable {random rest : Random} {keys : List String}

theorem spendsOn (h : r.Trims b frozen s random keys t rest) :
    ∀ key ∈ keys, r.SpendsOn b.category key ∧ key ∉ frozen := by
  induction h with
  | settled | exhausted => exact List.forall_mem_nil _
  | trim overspent drawn later ih =>
      obtain ⟨spends, -, free⟩ := mem_ownedKeys_iff.mp (Random.mem_of_choose? drawn)
      exact List.forall_mem_cons.mpr ⟨⟨spends, free⟩, ih⟩

/-- The value under a key is trimmed each time that the key is drawn. -/
theorem getElem?_eq (h : r.Trims b frozen s random keys t rest) (key : String) :
    t[key]? = (trimmed b.category)^[keys.count key] s[key]? := by
  induction h with
  | settled | exhausted => rfl
  | @trim s t random next rest drawnKey keys overspent drawn later ih =>
      rw [ih, trimKey_eq_update, Attributes.getElem?_update, List.count_cons]
      by_cases same : drawnKey = key
      · rw [if_pos same.symm, beq_iff_eq.mpr same, if_pos rfl, Function.iterate_succ_apply, same]
      · rw [if_neg (Ne.symm same), beq_false_of_ne same, if_neg Bool.false_ne_true, Nat.add_zero]

theorem foldl_trimKey (h : r.Trims b frozen s random keys t rest) :
    keys.foldl (trimKey b.category) s = t := by
  induction h with
  | settled | exhausted => rfl
  | trim overspent drawn later ih => exact ih

/-- In front of each trim the budget is overspent. -/
theorem overspent_before (h : r.Trims b frozen s random keys t rest) {before after : List String}
    {key : String} (split : keys = before ++ key :: after) :
    b.reportsOverspend (r.evaluate (before.foldl (trimKey b.category) s)) = true := by
  induction h generalizing before with
  | settled | exhausted =>
      exact absurd split.symm (List.append_ne_nil_of_right_ne_nil _ (List.cons_ne_nil _ _))
  | trim overspent drawn later ih =>
      cases before with
      | nil => exact overspent
      | cons first before =>
          obtain ⟨rfl, tail⟩ := List.cons.inj split
          exact ih tail

theorem settled_or_exhausted (h : r.Trims b frozen s random keys t rest) :
    b.reportsOverspend (r.evaluate t) = false ∨ r.ownedKeys b.category frozen t = [] := by
  induction h with
  | settled random within => exact .inl within
  | exhausted random none => exact .inr none
  | trim overspent drawn later ih => exact ih

end Trims

/-- The reach of trimming a budget that is overspent. -/
structure TrimsOnly (r : Ruleset) (b : Budget) (frozen : Std.TreeSet String) (s : Selection)
    (random : Random) (t : Selection) (rest : Random) : Prop where
  kept : ∀ key, ¬ r.SpendsOn b.category key ∨ key ∈ frozen → t[key]? = s[key]?
  none_added : ∀ key ∈ t, key ∈ s
  lowered : ∀ key, t[key]? ≠ s[key]? → t[key]? = none ∨
    (b.category = .attributes ∨ b.category = .skills) ∧ ∃ steps x, 0 < steps ∧
      t[key]? = some (.number x) ∧ Number.lt 0 x = true ∧
        x = (· - 1)^[steps] (Attributes.number s key)
  ended : b.reportsOverspend (r.evaluate t) = false ∨
    ∀ key, r.SpendsOn b.category key → truthy t[key]? = true → key ∈ frozen
  /-- The budget is overspent in front of the last trim. -/
  needed : ∃ keys, r.Trims b frozen s random keys t rest ∧ ∀ before last, keys = before ++ [last] →
    b.reportsOverspend (r.evaluate (before.foldl (trimKey b.category) s)) = true ∧
      trimKey b.category (before.foldl (trimKey b.category) s) last = t

theorem Trims.trimsOnly {random rest : Random} {keys : List String}
    (h : r.Trims b frozen s random keys t rest) : r.TrimsOnly b frozen s random t rest where
  kept key outside := by
    have undrawn : key ∉ keys := by
      intro drawn
      obtain ⟨spends, free⟩ := h.spendsOn key drawn
      exact outside.elim (· spends) free
    rw [h.getElem?_eq, List.count_eq_zero.mpr undrawn, Function.iterate_zero_apply]
  none_added key member := by
    rw [Std.TreeMap.mem_iff_isSome_getElem?] at member ⊢
    contrapose! member
    rw [Ne, Option.not_isSome_iff_eq_none] at member ⊢
    rw [h.getElem?_eq, member]
    exact goneAfter_none (keys.count key)
  lowered key changed := by
    rw [h.getElem?_eq] at changed ⊢
    cases often : keys.count key with
    | zero =>
        rw [often] at changed
        exact absurd rfl changed
    | succ n =>
        refine (iterate_trimmed b.category n s[key]?).imp_right ?_
        rintro ⟨steps, x, left, positive, lowered⟩
        have drawn : key ∈ keys := List.count_pos_iff.mp (often ▸ n.succ_pos)
        have owner := steps_of_spendsOn (h.spendsOn key drawn).1 steps
        exact ⟨owner, n + 1, x, n.succ_pos, left, positive, lowered⟩
  ended := h.settled_or_exhausted.imp_right fun exhausted key spends on => by
    by_contra free
    exact List.not_mem_nil (exhausted ▸ mem_ownedKeys_iff.mpr ⟨spends, on, free⟩)
  needed := by
    refine ⟨keys, h, ?_⟩
    rintro before last rfl
    refine ⟨h.overspent_before rfl, ?_⟩
    rw [← h.foldl_trimKey, List.foldl_concat]

/-- Settling an overspent budget takes points from its own category, where that is not frozen, and
no more of them than needed. -/
theorem trimsOnly_settleBudget {fuel : Nat} {p q : RepairState} {changed : Bool}
    (overspent : b.reportsOverspend (r.evaluate p.selection) = true)
    (returns : r.settleBudget fuel b (r.evaluate p.selection) p = some (q, changed)) :
    r.TrimsOnly b p.frozen p.selection p.random q.selection q.random := by
  rw [Budget.reportsOverspend] at overspent
  rw [settleBudget, settle, if_pos overspent, Option.map_eq_some_iff] at returns
  obtain ⟨⟨t, rest⟩, trims, same⟩ := returns
  obtain ⟨rfl, -⟩ := Prod.mk.inj same
  obtain ⟨keys, trims⟩ := exists_trims_of_trim trims
  exact trims.trimsOnly

def twoAttributes : Catalog := .ofSource {("attributes", {("Agility", ""), ("Vigor", "")})}

/-- Seven points where there are five. -/
def sevenPoints : Selection :=
  {("agilityAllocation", .number (.ofNat 4)), ("vigorAllocation", .number (.ofNat 3))}

/-- With vigor frozen, two points of agility go. -/
theorem trimsOnly_sevenPoints : ∃ r b q changed, ofCatalog twoAttributes = .ok r ∧
    Budget.ofFact? "validationNotes.attributeAllocation" = some b ∧
    b.reportsOverspend (r.evaluate sevenPoints) = true ∧
    r.settleBudget 3 b (r.evaluate sevenPoints) ⟨sevenPoints, {"vigorAllocation"}, .ofSeed 1⟩ =
      some (q, changed) ∧
    r.TrimsOnly b {"vigorAllocation"} sevenPoints (.ofSeed 1) q.selection q.random ∧
    q.selection["agilityAllocation"]? = some (.number 2) ∧
    q.selection["vigorAllocation"]? = sevenPoints["vigorAllocation"]? := by
  have fit : KeysFit twoAttributes := by decide +kernel
  have found : (Budget.ofFact? "validationNotes.attributeAllocation").any (fun b =>
      b.reportsOverspend ((assembledOf twoAttributes).evaluate sevenPoints) &&
        ((assembledOf twoAttributes).settleBudget 3 b ((assembledOf twoAttributes).evaluate sevenPoints)
          ⟨sevenPoints, {"vigorAllocation"}, .ofSeed 1⟩).any fun x =>
            decide (x.1.selection["agilityAllocation"]? = some (.number 2))) = true := by
    decide +kernel
  simp only [Option.any_eq_true, Bool.and_eq_true, decide_eq_true_eq] at found
  obtain ⟨b, watched, overspent, ⟨q, changed⟩, returns, left⟩ := found
  have reach := trimsOnly_settleBudget (p := ⟨sevenPoints, {"vigorAllocation"}, .ofSeed 1⟩)
    overspent returns
  have frozen : "vigorAllocation" ∈ ({"vigorAllocation"} : Std.TreeSet String) := by decide
  exact ⟨_, b, q, changed, ofCatalog_eq_of_keysFit fit, watched, overspent, returns, reach, left,
    reach.kept "vigorAllocation" (.inr frozen)⟩

end Ruleset
end CharacterRules
