import CharacterRules.CommandLine.Command
import CharacterRules.Proofs.Generation.Picks
import CharacterRules.Proofs.Json.RoundTrip
import CharacterRules.Proofs.Number.Finite
import CharacterRules.Proofs.Repair.BestState
import CharacterRules.Proofs.Repair.Confinement
import CharacterRules.Proofs.Repair.PlannedFix

/-!
The saving of selections that were repaired or filled. A file holds finite numbers only. Picks and trims
take a finite number to the next one, which is finite again, and the fix of a plain attribute sets it to
a value that a requirement compares it with, or next to that. So if all of these are finite, what was made
of a selection can be loaded from the file that it is saved to; a single requirement of an infinite number
is enough for a file that cannot.
-/

namespace CharacterRules

theorem Number.isFinite_ofNat {n : Nat} (small : n < 2 ^ 53) : (ofNat n).isFinite = true := by
  rw [ofNat, dif_pos small]
  rfl

theorem Fix.exists_ofNat_of_mem_allocations {most : Nat} {current n : Number}
    (h : n ∈ allocations most current) : ∃ k ≤ most, n = Number.ofNat k := by
  obtain ⟨k, below, rfl⟩ := List.mem_map.mp (List.mem_mergeSort.mp h)
  exact ⟨k, Nat.le_of_lt_succ (List.mem_range.mp below), rfl⟩

/-- The numbers in a sheet, without those that a text reads as. -/
def Attributes.numbers (a : Attributes) : List Number :=
  a.toList.filterMap fun
    | (_, .number n) => some n
    | (_, .text _) => none

theorem Attributes.mem_numbers {a : Attributes} {n : Number} :
    n ∈ a.numbers ↔ ∃ key : String, a[key]? = some (.number n) := by
  rw [numbers, List.mem_filterMap]
  constructor
  · rintro ⟨⟨key, v⟩, member, same⟩
    cases v with
    | number m =>
        obtain rfl := Option.some.inj same
        exact ⟨key, Std.TreeMap.mem_toList_iff_getElem?_eq_some.mp member⟩
    | text s => cases same
  · rintro ⟨key, found⟩
    exact ⟨(key, .number n), Std.TreeMap.mem_toList_iff_getElem?_eq_some.mpr found, rfl⟩

/-- The key of a comparison of a single key, with the value that it is compared with. What a key must
differ from is not meant. -/
def Comparison.asked? : Comparison → Option (String × Value)
  | ⟨.key _, .compare .ne _⟩ => none
  | ⟨.key key, .compare _ v⟩ => some (key, v)
  | _ => none

namespace Ruleset

/-- What the requirements compare single keys with. -/
def asks (r : Ruleset) : List (String × Value) :=
  r.graph.requirements.toList.flatMap fun (_, requirement) =>
    requirement.clauses.flatMap fun c => c.alternatives.filterMap Comparison.asked?

/-- Whether a key may have a value: a number is finite, and so is the number that a text reads as if
points are spent on the key. -/
def MayHold (r : Ruleset) (key : String) : Value → Prop
  | .number n => n.isFinite = true
  | .text s => key ∈ r.allocationKeys → (numberOrZero (some (.text s))).isFinite = true

instance (r : Ruleset) (key : String) : (v : Value) → Decidable (r.MayHold key v)
  | .number n => inferInstanceAs (Decidable (n.isFinite = true))
  | .text s => inferInstanceAs
      (Decidable (key ∈ r.allocationKeys → (numberOrZero (some (.text s))).isFinite = true))

/-- A selection in which each key has a value that it may have. -/
def HoldsFinite (r : Ruleset) (s : Selection) : Prop :=
  ∀ (key : String) (v : Value), s[key]? = some v → r.MayHold key v

section

variable {r : Ruleset} {s t : Selection} {category : Category} {key : String}

theorem category_text_not_mem_allocationKeys (r : Ruleset) (direct : category.isDirect = true) :
    category.text ∉ r.allocationKeys := by
  have plain : ¬ "Allocation".toList <:+ category.text.toList ∧
      ¬ "skillAllocation.".toList <+: category.text.toList := by
    cases category with
    | era | race | gender | name | concept => decide
    | attributes | skills | hindrances | edges | powers | weapons | armor => cases direct
  intro member
  rcases List.mem_append.mp member with bought | bought
  · obtain ⟨name, -, same⟩ := List.mem_map.mp bought
    exact append_ne_of_not_isSuffix plain.1 _ same
  · obtain ⟨name, -, same⟩ := List.mem_map.mp bought
    exact append_ne_of_not_isPrefix plain.2 _ same

theorem mayHold_text_of_direct (r : Ruleset) (direct : category.isDirect = true) (choice : String) :
    r.MayHold category.text (.text choice) :=
  fun spent => absurd spent (r.category_text_not_mem_allocationKeys direct)

theorem mem_allocationKeys_of_entryKey? (steps : category = .attributes ∨ category = .skills)
    {table entry : String} (drawn : category.table? = some table)
    (listed : entry ∈ r.catalog.names table) (own : category.entryKey? entry = some key) :
    key ∈ r.allocationKeys := by
  rcases steps with rfl | rfl
  all_goals
    obtain rfl := Option.some.inj drawn
    obtain rfl := Option.some.inj own
  · exact List.mem_append_left _ (List.mem_map_of_mem listed)
  · exact List.mem_append_right _ (List.mem_map_of_mem listed)

theorem mem_allocationKeys_of_spendsOn (steps : category = .attributes ∨ category = .skills)
    (spends : r.SpendsOn category key) : key ∈ r.allocationKeys := by
  rcases steps with rfl | rfl
  · exact List.mem_append_left _ (List.mem_map.mpr spends)
  · exact List.mem_append_right _ (List.mem_map.mpr spends)

theorem isFinite_number_of_mayHold (h : r.HoldsFinite s) (spent : key ∈ r.allocationKeys) :
    (Attributes.number s key).isFinite = true := by
  rw [Attributes.number]
  cases value : s[key]? with
  | none => rfl
  | some v =>
      have may := h key v value
      cases v with
      | number n => exact may
      | text choice => exact may spent

namespace HoldsFinite

theorem of_changed (h : r.HoldsFinite s)
    (changed : ∀ key : String, t[key]? ≠ s[key]? → ∀ v, t[key]? = some v → r.MayHold key v) :
    r.HoldsFinite t := by
  intro key v value
  by_cases same : t[key]? = s[key]?
  · exact h key v (same ▸ value)
  · exact changed key same v value

theorem update (h : r.HoldsFinite s) {value : Option Value}
    (may : ∀ v, value = some v → r.MayHold key v) : r.HoldsFinite (s.update key value) := by
  intro other v found
  by_cases same : other = key
  · subst same
    rw [Attributes.getElem?_update_self] at found
    exact may v found
  · rw [Attributes.getElem?_update_of_ne _ same] at found
    exact h other v found

theorem assignDirect (h : r.HoldsFinite s) (direct : category.isDirect = true)
    (frozen : Std.TreeSet String) (random : Random) :
    r.HoldsFinite (r.assignDirect category frozen s random).1 := by
  rw [Ruleset.assignDirect]
  split
  · exact h
  · split
    · rename_i choice rest drawn
      show r.HoldsFinite (s.update category.text (some (.text choice)))
      refine h.update fun v same => ?_
      obtain rfl := Option.some.inj same
      exact r.mayHold_text_of_direct direct choice
    · exact h

/-- Picks turn keys on or take a finite number up, one by one. -/
theorem fill (h : r.HoldsFinite s) (category : Category) (frozen : Std.TreeSet String)
    (random : Random) : r.HoldsFinite (r.fill category frozen s random).1 := by
  by_cases direct : category.isDirect = true
  · rw [Ruleset.fill, if_pos direct]
    exact h.assignDirect direct frozen random
  · have picked := Bool.eq_false_iff.mpr direct
    obtain ⟨allowance, start, tries, p, rest, -, -, filled, -, only⟩ :=
      r.exists_fillsOnly_fill picked frozen s random
    rw [filled]
    refine h.of_changed fun key changed v value => ?_
    by_cases toggle : category.toggleStart?.isSome = true
    · rw [(only.toggled toggle key changed).2] at value
      obtain rfl := Option.some.inj value
      exact rfl
    · have steps : category = .attributes ∨ category = .skills := by
        revert direct toggle
        cases category <;> decide
      obtain ⟨-, table, entry, drawn, listed, own⟩ := only.owned key changed
      have spent := mem_allocationKeys_of_entryKey? steps drawn listed own
      rw [only.raised steps key changed] at value
      obtain rfl := Option.some.inj value
      exact Function.Iterate.rec (fun x : Number => x.isFinite = true)
        (isFinite_number_of_mayHold h spent) (fun _ => Number.isFinite_add_one) _

/-- Trims take a finite number down, one by one. -/
theorem trim {b : Budget} {frozen : Std.TreeSet String} {fuel : Nat} {random rest : Random}
    (h : r.HoldsFinite s) (returns : r.trim b frozen fuel s random = some (t, rest)) :
    r.HoldsFinite t := by
  obtain ⟨keys, trims⟩ := exists_trims_of_trim returns
  have only := trims.trimsOnly
  refine h.of_changed fun key changed v value => ?_
  rcases only.lowered key changed with gone | ⟨steps, often, x, -, left, -, lowered⟩
  · rw [gone] at value
    cases value
  · have spends : r.SpendsOn b.category key := by
      by_contra other
      exact changed (only.kept key (.inl other))
    rw [left] at value
    obtain rfl := Option.some.inj value
    rw [lowered]
    exact Function.Iterate.rec (fun x : Number => x.isFinite = true)
      (isFinite_number_of_mayHold h (mem_allocationKeys_of_spendsOn steps spends))
      (fun _ => Number.isFinite_sub_one) _

theorem settle {b : Budget} {frozen : Std.TreeSet String} {fuel : Nat} {sheet : Snapshot}
    {random rest : Random} (h : r.HoldsFinite s)
    (returns : r.settle fuel b frozen s sheet random = some (t, rest)) : r.HoldsFinite t := by
  rw [Ruleset.settle] at returns
  split at returns
  · exact h.trim returns
  · obtain ⟨rfl, -⟩ := Prod.mk.inj (Option.some.inj returns)
    exact h.fill b.category frozen random

end HoldsFinite
end

section

variable {r : Ruleset} {key : String} {v : Value} {fix : Fix}

/-- What an attribute is set to for a test may stand there if what the test compares it with may. -/
theorem mayHold_of_desiredValue? {test : Test} (desired : Fix.desiredValue? test = some v)
    (asked : ∀ w, Comparison.asked? ⟨.key key, test⟩ = some (key, w) → r.MayHold key w) :
    r.MayHold key v := by
  cases test with
  | compare relation expected =>
      cases relation with
      | eq =>
          obtain rfl := Option.some.inj desired
          exact asked _ rfl
      | ne => cases desired
      | ge | le =>
          cases expected with
          | text s => cases desired
          | number n =>
              obtain rfl := Option.some.inj desired
              exact asked _ rfl
      | gt =>
          cases expected with
          | text s => cases desired
          | number n =>
              obtain rfl := Option.some.inj desired
              exact Number.isFinite_add_one (asked (.number n) rfl)
      | lt =>
          cases expected with
          | text s => cases desired
          | number n =>
              obtain rfl := Option.some.inj desired
              exact Number.isFinite_sub_one (asked (.number n) rfl)
  | «matches» pattern => cases desired
  | differs pattern => cases desired

theorem mayHold_toggle {test : Test} (set : (Fix.toggle key test).value? = some v) (other : String) :
    r.MayHold other v := by
  rw [Fix.toggle] at set
  split at set
  · obtain rfl := Option.some.inj set
    exact rfl
  · cases set

theorem mayHold_ofAbility? {a : Ability} {most : Nat} (small : most < 2 ^ 53) {sheet : Snapshot}
    {test : Test} (bought : Fix.ofAbility? a most sheet test = some fix) (set : fix.value? = some v)
    (other : String) : r.MayHold other v := by
  obtain ⟨n, found, rfl⟩ := Option.map_eq_some_iff.mp bought
  obtain ⟨k, bound, rfl⟩ := Fix.exists_ofNat_of_mem_allocations (List.mem_of_find?_eq_some found)
  rw [Fix.allocate] at set
  split at set
  · obtain rfl := Option.some.inj set
    exact Number.isFinite_ofNat (Nat.lt_of_le_of_lt bound small)
  · cases set

theorem mayHold_fixChoice? {choices few : List String} {test : Test} {sheet : Snapshot}
    {random : Random} (known : r.choices? key = some few)
    (drawn : (fixChoice? key choices test sheet random).1 = some fix) (set : fix.value? = some v) :
    r.MayHold fix.key v := by
  have direct : ∃ category : Category, category.isDirect = true ∧ category.text = key := by
    rw [choices?.eq_def] at known
    split at known
    · exact ⟨.gender, rfl, rfl⟩
    · exact ⟨.race, rfl, rfl⟩
    · exact ⟨.concept, rfl, rfl⟩
    · exact ⟨.era, rfl, rfl⟩
    · cases known
  obtain ⟨category, direct, rfl⟩ := direct
  rw [fixChoice?] at drawn
  split at drawn
  · rename_i choice rest chosen
    obtain rfl := Option.some.inj drawn
    obtain rfl := Option.some.inj set
    exact r.mayHold_text_of_direct direct choice
  · dsimp only at drawn
    obtain ⟨-, removed⟩ := Option.ite_none_right_eq_some.mp drawn
    obtain rfl := Option.some.inj removed
    cases set

/-- A planned fix gives its key a value that it may have. -/
theorem Plans.mayHold {sheet : Snapshot} {test : Test} (plans : r.Plans sheet key test fix)
    (asked : ∀ w, Comparison.asked? ⟨.key key, test⟩ = some (key, w) → r.MayHold key w)
    (set : fix.value? = some v) : r.MayHold fix.key v := by
  cases plans with
  | feature | switch => exact mayHold_toggle set _
  | skillDie named known bought => exact mayHold_ofAbility? (by decide) bought set _
  | attributeDie named known bought => exact mayHold_ofAbility? (by decide) bought set _
  | choice own still few drawn => exact mayHold_fixChoice? few drawn set
  | plain own still many planned =>
      rw [fixPlain?] at planned
      obtain ⟨-, planned⟩ := Option.ite_none_left_eq_some.mp planned
      split at planned
      · obtain rfl := Option.some.inj planned
        cases set
      · obtain ⟨w, desired, rfl⟩ := Option.map_eq_some_iff.mp planned
        obtain rfl := Option.some.inj set
        exact mayHold_of_desiredValue? desired asked

end

section

variable {r : Ruleset} {p q : RepairState} {sheet : Snapshot}

theorem HoldsFinite.applyFix (h : r.HoldsFinite p.selection) {fix : Fix}
    (may : ∀ v, fix.value? = some v → r.MayHold fix.key v) :
    r.HoldsFinite (p.applyFix fix).selection := by
  show r.HoldsFinite (fix.apply p.selection)
  rw [fix.apply_eq_update]
  exact h.update may

theorem HoldsFinite.fixClause (h : r.HoldsFinite p.selection) {c : Clause}
    (asked : ∀ entry ∈ c.alternatives.filterMap Comparison.asked?, r.MayHold entry.1 entry.2) :
    r.HoldsFinite (r.fixClause sheet p c).1.selection := by
  rw [Ruleset.fixClause]
  split
  · exact h
  · rename_i alternative random chosen
    dsimp only
    split
    · rename_i fix kept
      have planned := Option.eq_some_of_filter_eq_some kept
      refine HoldsFinite.applyFix (p := { p with random := _ }) h fun v set => ?_
      obtain ⟨operand, test⟩ := alternative
      cases operand with
      | sum | max => cases planned
      | key key =>
          have plans := plans_of_planFix rfl planned
          refine plans.mayHold (fun w own => ?_) set
          exact asked (key, w) (List.mem_filterMap.mpr ⟨_, Random.mem_of_choose? chosen, own⟩)
    · exact h

theorem HoldsFinite.fixClauses (h : r.HoldsFinite p.selection) {clauses : List Clause}
    (asked : ∀ c ∈ clauses, ∀ entry ∈ c.alternatives.filterMap Comparison.asked?,
      r.MayHold entry.1 entry.2) :
    r.HoldsFinite (r.fixClauses sheet p clauses).1.selection := by
  refine List.foldlRecOn (motive := fun (state : RepairState × Bool) =>
    r.HoldsFinite state.1.selection) clauses _ h ?_
  intro state kept c member
  exact HoldsFinite.fixClause kept (asked c member)

theorem HoldsFinite.dropTrait (h : r.HoldsFinite p.selection) (fact : String) :
    r.HoldsFinite (r.dropTrait p fact).1.selection := by
  rw [Ruleset.dropTrait]
  split
  · exact h
  · split
    · exact h
    · refine h.applyFix fun v set => ?_
      cases set

variable (asked : ∀ entry ∈ r.asks, r.MayHold entry.1 entry.2)
include asked

theorem HoldsFinite.fixFact {fuel : Nat} {fact : String} {fixed : Bool} (h : r.HoldsFinite p.selection)
    (returns : r.fixFact fuel sheet p fact = some (q, fixed)) : r.HoldsFinite q.selection := by
  rw [Ruleset.fixFact] at returns
  split at returns
  · obtain ⟨⟨s, random⟩, settled, result⟩ := Option.map_eq_some_iff.mp returns
    obtain ⟨rfl, -⟩ := Prod.mk.inj result
    exact h.settle settled
  · split at returns
    · obtain ⟨rfl, -⟩ := Prod.mk.inj (Option.some.inj returns)
      exact h
    · rename_i requirement known
      have clauses : r.HoldsFinite
          (r.fixClauses sheet p (requirement.failing sheet)).1.selection := by
        refine h.fixClauses fun c failing entry listed => asked entry ?_
        have member : (fact, requirement) ∈ r.graph.requirements.toList :=
          Std.TreeMap.mem_toList_iff_getElem?_eq_some.mpr known
        exact List.mem_flatMap.mpr ⟨_, member,
          List.mem_flatMap.mpr ⟨c, (List.mem_filter.mp failing).1, listed⟩⟩
      split at returns
      · rename_i met
        rw [met] at clauses
        obtain ⟨rfl, -⟩ := Prod.mk.inj (Option.some.inj returns)
        exact clauses
      · rename_i unmet
        rw [unmet] at clauses
        have dropped := clauses.dropTrait fact
        rw [Option.some.inj returns] at dropped
        exact dropped

theorem HoldsFinite.repairPass {fuel : Nat} {facts : List String} {fixed : Bool}
    (h : r.HoldsFinite p.selection) (returns : r.repairPass fuel facts p = some (q, fixed)) :
    r.HoldsFinite q.selection := by
  induction facts generalizing p q fixed with
  | nil =>
      obtain ⟨rfl, -⟩ := Prod.mk.inj (Option.some.inj returns)
      exact h
  | cons fact rest ih =>
      obtain ⟨m, first, tried, later⟩ : ∃ m first, r.HoldsFinite m.selection ∧
          ((r.repairPass fuel rest m).bind fun x => some (x.1, first || x.2)) =
            some (q, fixed) := by
        rw [Ruleset.repairPass] at returns
        split at returns
        · obtain ⟨⟨m, first⟩, tried, later⟩ := Option.bind_eq_some_iff.mp returns
          exact ⟨m, first, h.fixFact asked tried, later⟩
        · exact ⟨p, false, h, returns⟩
      obtain ⟨⟨q', more⟩, others, result⟩ := Option.bind_eq_some_iff.mp later
      obtain ⟨rfl, -⟩ := Prod.mk.inj (Option.some.inj result)
      exact ih tried others

theorem HoldsFinite.passes {fuel passes : Nat} {ends : List Selection}
    (h : r.HoldsFinite p.selection) (run : r.Passes fuel passes p ends) :
    ∀ t ∈ ends, r.HoldsFinite t := by
  induction run with
  | exhausted | clean => exact List.forall_mem_nil _
  | stuck passes p q violated pass =>
      exact List.forall_mem_singleton.mpr (h.repairPass asked pass)
  | fixed passes p q ends violated pass rest ih =>
      have kept := h.repairPass asked pass
      exact List.forall_mem_cons.mpr ⟨kept, ih kept⟩

theorem HoldsFinite.makeValid {s t : Selection} {fuel : Nat} {random rest : Random}
    (h : r.HoldsFinite s) (returns : r.makeValid fuel s random = some (t, rest)) :
    r.HoldsFinite t := by
  obtain ⟨⟨ends, passes, best⟩, -⟩ := isBest_of_makeValid r fuel s t random rest returns
  rcases List.mem_cons.mp best.mem with rfl | reached
  · exact h
  · exact HoldsFinite.passes (p := ⟨s, {}, random⟩) asked h passes t reached

end

/-- What a ruleset makes of a selection: it is repaired, or filled in a category, or a character is drawn
from nothing. -/
inductive Makes (r : Ruleset) : Selection → Selection → Prop where
  | repaired {s t : Selection} {fuel : Nat} {random rest : Random}
      (returns : r.makeValid fuel s random = some (t, rest)) : Makes r s t
  | filled (s : Selection) (category : Category) (random : Random) :
      Makes r s (r.randomize category s random).1
  | drawn {t : Selection} {fuel : Nat} {random rest : Random}
      (returns : r.randomCharacter fuel random = some (t, rest)) : Makes r {} t

theorem HoldsFinite.foldl_randomize {r : Ruleset} {x : Selection × Random}
    (h : r.HoldsFinite x.1) (categories : List Category) :
    r.HoldsFinite (categories.foldl
      (fun (s, random) category => r.randomize category s random) x).1 := by
  induction categories generalizing x with
  | nil => exact h
  | cons category categories ih => exact ih (h.fill category {} x.2)

theorem HoldsFinite.makes {r : Ruleset} {s t : Selection} (h : r.HoldsFinite s)
    (asked : ∀ entry ∈ r.asks, r.MayHold entry.1 entry.2) (made : r.Makes s t) : r.HoldsFinite t := by
  cases made with
  | repaired returns => exact h.makeValid asked returns
  | filled s category random => exact h.fill category {} random
  | drawn returns =>
      rename_i fuel random rest
      have all := HoldsFinite.foldl_randomize (x := ({}, random)) h Category.all
      rw [randomCharacter] at returns
      obtain ⟨u, next, filled⟩ : ∃ u next, Category.all.foldl
          (fun (s, random) category => r.randomize category s random) ({}, random) = (u, next) :=
        ⟨_, _, rfl⟩
      rw [filled] at all returns
      exact HoldsFinite.makeValid asked all returns

theorem holdsFinite_iff {r : Ruleset} {s : Selection} :
    r.HoldsFinite s ↔ (∀ n ∈ s.numbers, n.isFinite = true) ∧
      ∀ key ∈ r.allocationKeys, (Attributes.number s key).isFinite = true := by
  constructor
  · intro h
    refine ⟨fun n member => ?_, fun key spent => isFinite_number_of_mayHold h spent⟩
    obtain ⟨key, found⟩ := Attributes.mem_numbers.mp member
    exact h key _ found
  · rintro ⟨numbers, points⟩ key v found
    cases v with
    | number n => exact numbers n (Attributes.mem_numbers.mpr ⟨key, found⟩)
    | text choice =>
        intro spent
        exact found ▸ points key spent

end Ruleset

theorem CommandLine.loadSelection_eq {read : Reader} {path text : String} (stored : read path = .ok text) :
    loadSelection read path = match Attributes.ofJson? text with
      | none => .error (.malformed path)
      | some s => .ok s := by
  rw [loadSelection, stored]
  rfl

namespace Ruleset

open CommandLine in
/-- If the requirements compare keys with finite numbers only, and the numbers of a selection are finite,
so are those of what is made of it. As far as finite numbers are read back from their written form, what
is then written or printed is read back as the same selection. -/
theorem exists_loadSelection_of_makes {r : Ruleset} {s t : Selection}
    (asked : ∀ entry ∈ r.asks, r.MayHold entry.1 entry.2)
    (numbers : ∀ n ∈ s.numbers, n.isFinite = true)
    (points : ∀ key ∈ r.allocationKeys, (Attributes.number s key).isFinite = true)
    (made : r.Makes s t) :
    (∀ n ∈ t.numbers, n.isFinite = true) ∧
      ∀ (read : Reader) (path content : String) (remarks : List String),
        (∀ n ∈ t.numbers, n.isFinite = true → Json.ReadsBack n) →
        (deliver t (some path) remarks).output = some (path, content) ∨
          (deliver t none remarks).text = content →
        read path = .ok content →
        ∃ loaded, loadSelection read path = .ok loaded ∧ loaded.toList = t.toList := by
  have finite := (holdsFinite_iff.mp ((holdsFinite_iff.mpr ⟨numbers, points⟩).makes asked made)).1
  refine ⟨finite, fun read path content remarks reads saved stored => ?_⟩
  have written : content = t.toJsonLines ++ "\n" := by
    rcases saved with output | printed
    · exact (Prod.mk.inj (Option.some.inj output)).2.symm
    · rw [← printed, Outcome.text]
      rfl
  obtain ⟨loaded, document, same⟩ := Attributes.exists_ofJson?_toJsonLines fun key n found =>
    have member := Attributes.mem_numbers.mpr ⟨key, found⟩
    reads n member (finite n member)
  refine ⟨loaded, ?_, same⟩
  rw [loadSelection_eq (written ▸ stored), document]

/-- The edge is kept with four advances, which are saved and loaded again. -/
theorem exists_loadSelection_advancedEdge : ∃ t rest,
    advancedEdge.asks = [("advances", .number 4)] ∧ advancedEdge.allocationKeys = [] ∧
    advancedEdge.makeValid 0 {("edges.Block", .number 1)} (.ofSeed 7) = some (t, rest) ∧
    t["advances"]? = some (.number 4) ∧ (∀ n ∈ t.numbers, n.isFinite = true) ∧
    ∃ loaded, CommandLine.loadSelection (fun _ => .ok (t.toJsonLines ++ "\n")) "saved.json" = .ok loaded ∧
      loaded.toList = t.toList := by
  obtain ⟨asks, none⟩ : advancedEdge.asks = [("advances", .number 4)] ∧
      advancedEdge.allocationKeys = [] := by decide
  have repaired : (advancedEdge.makeValid 0 {("edges.Block", .number 1)} (.ofSeed 7)).any (fun x =>
      decide (x.1["advances"]? = some (.number 4) ∧ ∀ n ∈ x.1.numbers, Json.ReadsBack n)) = true := by
    decide +kernel
  simp only [Option.any_eq_true, decide_eq_true_eq] at repaired
  obtain ⟨⟨t, rest⟩, returns, advances, reads⟩ := repaired
  have asked : ∀ entry ∈ advancedEdge.asks, advancedEdge.MayHold entry.1 entry.2 := by
    rw [asks]
    exact List.forall_mem_singleton.mpr rfl
  obtain ⟨finite, loads⟩ := exists_loadSelection_of_makes asked (by decide)
    (by rw [none]; exact List.forall_mem_nil _) (.repaired returns)
  refine ⟨t, rest, asks, none, returns, advances, finite, ?_⟩
  exact loads _ _ _ [] (fun n member _ => reads n member) (.inl rfl) rfl

/-- The rules of an armor with a requirement. -/
def plateAsking (required : Prerequisite) : Ruleset where
  catalog := {}
  graph := RuleGraph.defineFact {} "validationNotes.plateArmor" "armors.Plate" required
  names := {}
  issues := []

def onlyPlate : Selection := {("armors.Plate", .number 1)}

/-- Where unbounded luck is required, the luck is set to infinity, and what is then saved cannot be
loaded. -/
theorem exists_not_loadSelection_luckyPlate : ∃ required t rest,
    Prerequisite.ofTexts ["luck >= inf"] = .ok required ∧
    (∀ n ∈ onlyPlate.numbers, n.isFinite = true) ∧
    (plateAsking required).makeValid 0 onlyPlate (.ofSeed 1) = some (t, rest) ∧
    t["luck"]? = some (.number (.infinity false)) ∧
    ∀ (read : CommandLine.Reader) (path : String), read path = .ok (t.toJsonLines ++ "\n") →
      ∃ f, CommandLine.loadSelection read path = .error f := by
  have found : (Prerequisite.ofTexts ["luck >= inf"]).toOption.any (fun required =>
      ((plateAsking required).makeValid 0 onlyPlate (.ofSeed 1)).any fun x =>
        decide (x.1["luck"]? = some (.number (.infinity false)) ∧
          Attributes.ofJson? (x.1.toJsonLines ++ "\n") = none)) = true := by
    decide +kernel
  simp only [Option.any_eq_true, toOption_eq_some_iff, decide_eq_true_eq] at found
  obtain ⟨required, reads, ⟨t, rest⟩, returns, luck, unread⟩ := found
  refine ⟨required, t, rest, reads, by decide, returns, luck, fun read path stored => ?_⟩
  refine ⟨.malformed path, ?_⟩
  rw [CommandLine.loadSelection_eq stored, unread]

end Ruleset
end CharacterRules
