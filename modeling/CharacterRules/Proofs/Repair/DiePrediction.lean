import CharacterRules.Proofs.Number.Range
import CharacterRules.Proofs.Repair.PlannedFix
import CharacterRules.Proofs.Rule.Summand
import CharacterRules.Proofs.Ruleset.StepRule

/-!
The die that a fix counts on. To find how many steps of an ability must be bought, a fix takes the die of
each number of steps from what the sheet has beside the steps bought now, and evaluates nothing. Where the
step is a sum of integers that do not depend on the steps bought, this is the die of the evaluation as long
as the step is not negative: a negative step is no die for the fix, and the smallest one for the rule.
-/

namespace CharacterRules

namespace Value

/-- Whether a value is a number without a fraction. -/
def isWhole : Value → Bool
  | .number n => n.toInt?.isSome
  | .text _ => false

theorem isTruthy_number_iff {n : Number} {z : Int} (integer : n.toInt? = some z) :
    (number n).isTruthy = true ↔ z ≠ 0 := by
  obtain ⟨sign, m, k, normal, rfl, rfl⟩ := Number.toInt?_eq_some.mp integer
  have vanish : Number.signed sign (m * 2 ^ k) = 0 ↔ m = 0 := by
    cases sign <;> simp [Number.signed]
  have number : (Value.number (.finite sign m k normal)).isTruthy = !(m == 0 || false) := rfl
  rw [ne_eq, vanish, number, Bool.or_false, Bool.not_eq_true', beq_eq_false_iff_ne]

/-- A sum of integers that are numbers counts as true unless it is zero. -/
theorem truthy_addAll_iff {values : List Value} (exact : AddExactly values)
    (whole : ∀ v ∈ values, v.isWhole = true) : truthy (addAll values) = true ↔ total values ≠ 0 := by
  rcases values with _ | ⟨v, rest⟩
  · exact iff_of_false Bool.false_ne_true fun nonzero => nonzero rfl
  · obtain ⟨w, added, sum⟩ := exists_addAll_eq exact (List.cons_ne_nil v rest)
    obtain ⟨n, rfl⟩ : ∃ n, w = .number n := by
      cases rest with
      | nil =>
          obtain rfl := Option.some.inj added
          cases v with
          | number n => exact ⟨n, rfl⟩
          | text s => cases whole _ List.mem_cons_self
      | cons => exact sum.number (by simp)
    rw [added]
    exact isTruthy_number_iff sum.integer

theorem addExactly_of_small {values : List Value} (whole : ∀ v ∈ values, v.isWhole = true)
    (small : ∀ before ∈ values.inits, (total before).natAbs < 2 ^ 53) : AddExactly values where
  integral v member := by
    have number := whole v member
    cases v with
    | number n => exact number
    | text s => cases number
  exact before first := Number.isExact_of_lt (small before ((List.mem_inits before values).mpr first))

end Value

namespace Ability

/-- The formula of the die gives the die of the step. -/
theorem eval_dieExpr {source : Option Value} {z : Int}
    (integer : (numberOrZero source).toInt? = some z) (sheet : Attributes) :
    dieExpr.eval ⟨source, sheet⟩ = some (.number (dieOfStep (numberOrZero source))) := by
  have value : dieExpr.eval ⟨source, sheet⟩ =
      some (.number (((2 + numberOrZero source * 2).min 12).max 4)) := rfl
  obtain ⟨sign, m, k, normal, same, -⟩ := Number.toInt?_eq_some.mp integer
  have doubled : numberOrZero source * 2 ≠ .nan := by
    rw [same]
    exact Number.finite_mul_ne_nan normal _
  have range := Number.clamp_eq_max_min (show 4 ≤ 12 by decide) (by decide)
    (Number.finite_add_ne_nan (n := false) (m := 2) (e := 0) (by decide) doubled)
  exact value.trans (congrArg (fun die => some (Value.number die)) range.symm)

/-- The selection with a number of steps bought. -/
def buy (a : Ability) (n : Nat) (s : Selection) : Selection := (Fix.allocate a (.ofNat n)).apply s

/-- A selection and those that buying steps leads to. -/
def purchases (a : Ability) (most : Nat) (s : Selection) : List Selection :=
  s :: (List.range (most + 1)).map (a.buy · s)

/-- The step without those that are bought, as a fix takes it. -/
def bonus (a : Ability) (sheet : Snapshot) : Number :=
  Attributes.number sheet a.step - Attributes.number sheet a.allocation

variable (a : Ability)

theorem buy_mem_purchases {n most : Nat} (bound : n ≤ most) (s : Selection) :
    a.buy n s ∈ a.purchases most s :=
  .tail _ (List.mem_map.mpr ⟨n, List.mem_range.mpr (Nat.lt_succ_of_le bound), rfl⟩)

theorem key_allocate (n : Number) : (Fix.allocate a n).key = a.allocation := by
  rw [Fix.allocate]
  split <;> rfl

theorem getElem?_of_mem_purchases {most : Nat} {s t : Selection} (bought : t ∈ a.purchases most s)
    {key : String} (other : key ≠ a.allocation) : t[key]? = s[key]? := by
  rcases List.mem_cons.mp bought with rfl | bought
  · rfl
  · obtain ⟨n, -, rfl⟩ := List.mem_map.mp bought
    exact Fix.getElem?_apply_of_ne _ s (a.key_allocate _ ▸ other)

theorem getElem?_buy {n : Nat} (bound : n < 2 ^ 53) (s : Selection) :
    (a.buy n s)[a.allocation]? = if n = 0 then none else some (.number (.ofNat n)) := by
  have positive : Number.lt 0 (.ofNat n) = true ↔ n ≠ 0 := by
    rw [Number.lt_iff_of_toInt? (x := 0) (a := 0) rfl (Number.toInt?_ofNat bound)]
    omega
  have left : (a.buy n s)[a.allocation]? = (Fix.allocate a (.ofNat n)).value? := by
    rw [← a.key_allocate (.ofNat n), buy, Fix.getElem?_apply_self]
  rw [left, Fix.allocate]
  by_cases zero : n = 0
  · rw [if_pos zero, if_neg fun more => positive.mp more zero]
    rfl
  · rw [if_neg zero, if_pos (positive.mpr zero)]
    rfl

theorem number_buy {n : Nat} (bound : n < 2 ^ 53) (s : Selection) :
    (Attributes.number (a.buy n s) a.allocation).toInt? = some n := by
  rw [Attributes.number, a.getElem?_buy bound]
  split
  · rename_i zero
    rw [zero]
    rfl
  · exact Number.toInt?_ofNat bound

end Ability

namespace Fix

/-- The die that a fix counts on for an exact step. -/
theorem dieOfAllocation_eq {bonus allocation step : Number} {x y : Int}
    (hx : allocation.toInt? = some x) (hy : bonus.toInt? = some y)
    (total : step.toInt? = some (x + y)) :
    dieOfAllocation bonus allocation =
      if 0 < x + y then some (.number (Ability.dieOfStep step)) else none := by
  have sum := (Number.toInt?_add hx hy ⟨step, total⟩).1
  have positive : Number.lt 0 (allocation + bonus) = true ↔ 0 < x + y :=
    Number.lt_iff_of_toInt? (x := 0) (a := 0) rfl sum
  rw [dieOfAllocation]
  by_cases above : 0 < x + y
  · -- The two steps are one integer, so they could differ in the sign of a zero alone.
    have nonzero : ∀ {n : Number}, n.toInt? = some (x + y) → n ≠ .signedZero true := by
      rintro n integer rfl
      have zero : 0 = x + y := Option.some.inj integer
      omega
    have same := Number.eq_of_toInt? sum total (iff_of_false (nonzero sum) (nonzero total))
    rw [if_pos (positive.mpr above), if_pos above, same]
  · rw [if_neg fun more => above (positive.mp more), if_neg above]

theorem exists_of_ofAbility? {a : Ability} {most : Nat} {sheet : Snapshot} {test : Test} {fix : Fix}
    (h : ofAbility? a most sheet test = some fix) : ∃ n ≤ most, fix = allocate a (.ofNat n) ∧
      test.accepts (dieOfAllocation (a.bonus sheet) (.ofNat n)) = true := by
  obtain ⟨allocation, found, rfl⟩ := Option.map_eq_some_iff.mp h
  have listed := List.mem_of_find?_eq_some found
  rw [allocations, List.mem_mergeSort, List.mem_map] at listed
  obtain ⟨n, bound, rfl⟩ := listed
  have accepted := List.find?_some found
  exact ⟨n, Nat.le_of_lt_succ (List.mem_range.mp bound), rfl, accepted⟩

theorem isSome_ofAbility? {a : Ability} {n most : Nat} (bound : n ≤ most) {sheet : Snapshot}
    {test : Test} (accepted : test.accepts (dieOfAllocation (a.bonus sheet) (.ofNat n)) = true) :
    (ofAbility? a most sheet test).isSome = true := by
  rw [ofAbility?, Option.isSome_map, List.find?_isSome]
  refine ⟨.ofNat n, ?_, accepted⟩
  rw [allocations, List.mem_mergeSort]
  exact List.mem_map.mpr ⟨n, List.mem_range.mpr (Nat.lt_succ_of_le bound), rfl⟩

end Fix

namespace Ruleset

/-- What is added up for the step of an ability. -/
def stepSummands (r : Ruleset) (a : Ability) (s : Selection) : List Value :=
  (r.graph.rulesFor a.step).filterMap (Rule.summand? (r.evaluate s))

/-- Whether a rule adds an integer that does not depend on the steps that are bought. -/
def AddsBonus (r : Ruleset) (a : Ability) (most : Nat) (s : Selection) (rule : Rule) : Prop :=
  rule.op = .add ∧ (rule.summand? (r.evaluate s)).all Value.isWhole = true ∧
    ∀ t ∈ a.purchases most s, rule.summand? (r.evaluate t) = rule.summand? (r.evaluate s)

instance (r : Ruleset) (a : Ability) (most : Nat) (s : Selection) (rule : Rule) :
    Decidable (r.AddsBonus a most s rule) := by
  unfold AddsBonus
  infer_instance

/-- Whether an ability has no die but that of its step, and its step is a sum of integers without
rounding, of which only one depends on the steps that are bought: these steps. -/
structure AddsSteps (r : Ruleset) (a : Ability) (most : Nat) (first : List Rule) (s : Selection) :
    Prop where
  die : r.graph.rulesFor a.die = [a.dieRule]
  raw : r.graph.hasTarget a.allocation = false
  unset : s[a.step]? = none ∧ s[a.die]? = none
  chosen : (s[a.allocation]?).all Value.isWhole = true
  other : ∀ rule ∈ r.graph.rulesFor a.step,
    rule ∈ first ++ [a.allocationRule] ∨ r.AddsBonus a most s rule
  exact : ∀ t ∈ a.purchases most s, Value.AddExactly (r.stepSummands a t)

namespace AddsSteps

variable {r : Ruleset} (compiled : r.IsCompiled) (acyclic : r.graph.IsAcyclic)
  {a : Ability} {most : Nat} {first : List Rule} (known : HasAbility r.catalog a most first)
  {s t : Selection} (h : r.AddsSteps a most first s) (bought : t ∈ a.purchases most s)

include known h bought

theorem chosen_of_mem : (t[a.allocation]?).all Value.isWhole = true := by
  rcases List.mem_cons.mp bought with rfl | bought
  · exact h.chosen
  · obtain ⟨n, bound, rfl⟩ := List.mem_map.mp bought
    have small := Nat.lt_of_le_of_lt (Nat.le_of_lt_succ (List.mem_range.mp bound)) known.most_lt
    rw [a.getElem?_buy small]
    split
    · rfl
    · exact congrArg Option.isSome (Number.toInt?_ofNat small)

include compiled

/-- The steps that are bought enter the step unless there are none. -/
theorem summand?_allocationRule {z : Int}
    (steps : (Attributes.number t a.allocation).toInt? = some z) :
    (∀ v ∈ (a.allocationRule.summand? (r.evaluate t)).toList, v.isWhole = true) ∧
      Value.total (a.allocationRule.summand? (r.evaluate t)).toList = z := by
  have held : (r.evaluate t)[a.allocation]? = t[a.allocation]? :=
    compiled.built.consistent.getElem?_evaluate_of_unwritten h.raw t
  have whole := chosen_of_mem known h bought
  have value : a.allocationRule.summand? (r.evaluate t) =
      if truthy t[a.allocation]? then t[a.allocation]? else none := by
    have read : (r.evaluate t)[a.allocationRule.source]? = t[a.allocation]? := held
    rw [Rule.summand?_of_ne known.allocation_ne_empty, read]
    rfl
  rw [Attributes.number] at steps
  rw [value]
  -- absent and zero steps add nothing, and other whole numbers add themselves
  cases chosen : t[a.allocation]? with
  | none =>
      rw [chosen] at steps
      obtain rfl := Option.some.inj steps
      exact ⟨List.forall_mem_nil _, rfl⟩
  | some v =>
      rw [chosen] at steps whole
      cases v with
      | text text => cases whole
      | number n =>
          have integer : n.toInt? = some z := steps
          cases counts : truthy (some (.number n)) with
          | true =>
              refine ⟨List.forall_mem_singleton.mpr whole, ?_⟩
              have alone : Value.total [.number n] = ([n.toInt?].filterMap id).sum := rfl
              rw [if_pos rfl, Option.toList_some, alone, integer]
              simp
          | false =>
              have zero : z = 0 := Classical.byContradiction fun nonzero =>
                Bool.false_ne_true (counts.symm.trans ((Value.isTruthy_number_iff integer).mpr nonzero))
              exact ⟨List.forall_mem_nil _, zero.symm⟩

omit bought in
theorem exists_rulesFor_step : ∃ others,
    r.graph.rulesFor a.step = first ++ a.allocationRule :: others ∧
      ∀ rule ∈ others, r.AddsBonus a most s rule := by
  obtain ⟨others, rules, fresh⟩ := known.exists_rulesFor_eq compiled
  refine ⟨others, rules, fun rule member => (h.other rule ?_).resolve_left (fresh rule member)⟩
  rw [rules]
  exact List.mem_append_right _ (.tail _ member)

/-- The step is the sum of what it is without steps bought and of these steps. -/
theorem total_stepSummands {z : Int} (steps : (Attributes.number t a.allocation).toInt? = some z) :
    (∀ v ∈ r.stepSummands a t, v.isWhole = true) ∧
      Value.total (r.stepSummands a t) = Value.total (r.stepSummands a (a.buy 0 s)) + z := by
  obtain ⟨others, rules, added⟩ := exists_rulesFor_step compiled known h
  -- Only what is in the middle depends on `t`.
  have parts : ∀ t ∈ a.purchases most s, r.stepSummands a t = (first.map fun _ => .number 1) ++
      ((a.allocationRule.summand? (r.evaluate t)).toList ++
        others.filterMap (Rule.summand? (r.evaluate s))) := by
    intro t bought
    have same : others.filterMap (Rule.summand? (r.evaluate t)) =
        others.filterMap (Rule.summand? (r.evaluate s)) :=
      List.filterMap_congr fun rule member => (added rule member).2.2 t bought
    rw [stepSummands, rules, List.filterMap_append, known.filterMap_summand?_first, ← same,
      List.filterMap_eq_flatMap_toList (Rule.summand? (r.evaluate t)), List.flatMap_cons,
      ← List.filterMap_eq_flatMap_toList]
  have nothing := a.buy_mem_purchases (Nat.zero_le most) s
  obtain ⟨whole, own⟩ := summand?_allocationRule compiled known h bought steps
  obtain ⟨-, none⟩ := summand?_allocationRule compiled known h nothing (a.number_buy (by decide) s)
  constructor
  · rw [parts t bought]
    refine List.forall_mem_append.mpr ⟨?_, List.forall_mem_append.mpr ⟨whole, ?_⟩⟩
    · rintro v member
      obtain ⟨-, -, rfl⟩ := List.mem_map.mp member
      rfl
    · rintro v member
      obtain ⟨rule, listed, value⟩ := List.mem_filterMap.mp member
      have integral := (added rule listed).2.1
      rw [value] at integral
      exact integral
  · rw [parts t bought, parts _ nothing]
    simp only [Value.total_append, own, none]
    omega

include acyclic

theorem getElem?_step : (r.evaluate t)[a.step]? = Value.addAll (r.stepSummands a t) := by
  obtain ⟨others, rules, added⟩ := exists_rulesFor_step compiled known h
  have unset : t[a.step]? = none :=
    (a.getElem?_of_mem_purchases bought known.step_ne_allocation).trans h.unset.1
  rw [evaluate, compiled.built.consistent.getElem?_evaluate acyclic unset, rules,
    known.evaluateRules_step fun rule member => (added rule member).1, ← rules]
  rfl

theorem toInt?_step : (Attributes.number (r.evaluate t) a.step).toInt? =
    some (Value.total (r.stepSummands a t)) := by
  rw [Attributes.number, getElem?_step compiled acyclic known h bought]
  exact Value.toInt?_addAll (h.exact t bought)

/-- The rule of the die leaves none for the step zero alone. -/
theorem getElem?_die (whole : ∀ v ∈ r.stepSummands a t, v.isWhole = true) :
    (r.evaluate t)[a.die]? = if Value.total (r.stepSummands a t) ≠ 0 then
      some (.number (Ability.dieOfStep (Attributes.number (r.evaluate t) a.step))) else none := by
  have unset : t[a.die]? = none :=
    (a.getElem?_of_mem_purchases bought known.die_ne_allocation).trans h.unset.2
  have step := toInt?_step compiled acyclic known h bought
  have counts : truthy (r.evaluate t)[a.step]? = true ↔ Value.total (r.stepSummands a t) ≠ 0 := by
    rw [getElem?_step compiled acyclic known h bought]
    exact Value.truthy_addAll_iff (h.exact t bought) whole
  have value : a.dieRule.summand? (r.evaluate t) =
      if truthy (r.evaluate t)[a.step]? then
        some (.number (Ability.dieOfStep (Attributes.number (r.evaluate t) a.step))) else none :=
    (Rule.summand?_of_ne known.step_ne_empty (r.evaluate t)).trans
      (if_congr Iff.rfl (Ability.eval_dieExpr step _) rfl)
  rw [evaluate, compiled.built.consistent.getElem?_evaluate acyclic unset, h.die,
    RuleGraph.evaluateRules_cons_of_set rfl]
  exact value.trans (if_congr counts rfl rfl)

omit bought in
/-- What a fix takes for the step without those that are bought is what it is without them. -/
theorem toInt?_bonus : (a.bonus (r.evaluate s)).toInt? =
    some (Value.total (r.stepSummands a (a.buy 0 s))) := by
  have now : s ∈ a.purchases most s := List.mem_cons_self
  have held : Attributes.number (r.evaluate s) a.allocation = Attributes.number s a.allocation :=
    congrArg numberOrZero (compiled.built.consistent.getElem?_evaluate_of_unwritten h.raw s)
  obtain ⟨z, steps⟩ : ∃ z, (Attributes.number s a.allocation).toInt? = some z := by
    have whole := h.chosen
    rw [Attributes.number]
    cases chosen : s[a.allocation]? with
    | none => exact ⟨0, rfl⟩
    | some v =>
        rw [chosen] at whole
        cases v with
        | text text => cases whole
        | number n => exact Option.isSome_iff_exists.mp whole
  have step := toInt?_step compiled acyclic known h now
  rw [(total_stepSummands compiled known h now steps).2] at step
  have told := (h.exact _ (a.buy_mem_purchases (Nat.zero_le most) s)).exact _ List.prefix_rfl
  have rest : Value.total (r.stepSummands a (a.buy 0 s)) + z + -z =
      Value.total (r.stepSummands a (a.buy 0 s)) := by omega
  have difference := Number.toInt?_add step (Number.toInt?_neg steps) (rest.symm ▸ told)
  rw [Ability.bonus, held]
  exact difference.1.trans (congrArg some rest)

end AddsSteps

/-- The die that a fix counts on is that of the evaluation exactly if the step is not negative. So a fix
that leads to no negative step makes the comparison of the die hold. -/
theorem dieOfAllocation_eq_iff {r : Ruleset} (compiled : r.IsCompiled) (acyclic : r.graph.IsAcyclic)
    {a : Ability} {most : Nat} {first : List Rule} (known : HasAbility r.catalog a most first)
    {s : Selection} (h : r.AddsSteps a most first s) :
    (∀ n ≤ most, Fix.dieOfAllocation (a.bonus (r.evaluate s)) (.ofNat n) =
        (r.evaluate (a.buy n s))[a.die]? ↔
          Number.lt (Attributes.number (r.evaluate (a.buy n s)) a.step) 0 = false) ∧
      ∀ (c : Comparison) (fix : Fix), c.operand = .key a.die →
        Text.afterStart? a.die "features." = none →
        Fix.ofAbility? a most (r.evaluate s) c.test = some fix →
        Number.lt (Attributes.number (r.evaluate (fix.apply s)) a.step) 0 = false →
        c.holds (r.evaluate (fix.apply s)) = true := by
  have predicts : ∀ n ≤ most, Fix.dieOfAllocation (a.bonus (r.evaluate s)) (.ofNat n) =
      (r.evaluate (a.buy n s))[a.die]? ↔
        Number.lt (Attributes.number (r.evaluate (a.buy n s)) a.step) 0 = false := by
    intro n bound
    have small := Nat.lt_of_le_of_lt bound known.most_lt
    have bought := a.buy_mem_purchases bound s
    have step := AddsSteps.toInt?_step compiled acyclic known h bought
    obtain ⟨whole, total⟩ :=
      AddsSteps.total_stepSummands compiled known h bought (a.number_buy small s)
    rw [AddsSteps.getElem?_die compiled acyclic known h bought whole]
    rw [total, Int.add_comm] at step ⊢
    have sign := not_congr (Number.lt_iff_of_toInt? step (y := 0) (b := 0) rfl)
    rw [Fix.dieOfAllocation_eq (Number.toInt?_ofNat small)
      (AddsSteps.toInt?_bonus compiled acyclic known h) step, Bool.eq_false_iff.trans sign]
    -- The fix asks for a positive step, the rule of the die for one other than zero.
    generalize (n : Int) + Value.total (r.stepSummands a (a.buy 0 s)) = z
    rcases Int.lt_trichotomy z 0 with negative | rfl | positive
    · rw [if_neg (by omega), if_pos (by omega)]
      exact iff_of_false nofun (not_not.mpr negative)
    · exact iff_of_true rfl (Int.lt_irrefl 0)
    · rw [if_pos positive, if_pos (by omega)]
      exact iff_of_true rfl (by omega)
  refine ⟨predicts, fun c fix single own planned positive => ?_⟩
  obtain ⟨n, bound, rfl, accepted⟩ := Fix.exists_of_ofAbility? planned
  have chain : lookupChain a.die = [a.die] := by rw [lookupChain, own]
  have found : c.operand.resolve (r.evaluate (a.buy n s)) = (r.evaluate (a.buy n s))[a.die]? := by
    rw [single, Operand.resolve, chain]
    exact List.findSome?_singleton
  show c.test.accepts (c.operand.resolve (r.evaluate (a.buy n s))) = true
  rw [found, ← (predicts n bound).mpr positive]
  exact accepted

/-- Armor for the clumsy, a charm that makes nimble, and a curse that costs six steps of agility. -/
def cursedCatalog : Catalog :=
  .ofSource {("attributes", {("Agility", "")}), ("armors", {("Aegis", "Require=\"agility < 4\"")}),
    ("features", {("Charm", "Section=attribute Note=\"+1 Agility step\""),
      ("Curse", "Section=attribute Note=\"-6 Agility step\"")})}

def cursedRuleset : Ruleset := compiledOf cursedCatalog

def agility : Ability := .ofAttribute "Agility"

/-- One step of agility is bought, and there is the charm. -/
def charmed : Selection := {("agilityAllocation", .number 1), ("features.Charm", .number 1)}

/-- More steps are bought than a fix buys, and there is the curse. -/
def cursed : Selection :=
  {("agilityAllocation", .number 7), ("armors.Aegis", .number 1), ("features.Curse", .number 1)}

theorem ofCatalog_cursedCatalog : ofCatalog cursedCatalog = .ok cursedRuleset := by
  have fit : KeysFit cursedCatalog := by decide +kernel
  rw [cursedRuleset, compiledOf_eq_assembledOf]
  exact ofCatalog_eq_of_keysFit fit

theorem hasAbility_agility : HasAbility cursedCatalog agility 4 [agility.firstRule] :=
  .ofAttribute "Agility" (by decide +kernel)

/-- A comparison that asks for a large die, and one that no die meets. -/
def nimble : Comparison := ⟨.key agility.die, .compare .ge (.number 10)⟩

def clumsy : Comparison := ⟨.key agility.die, .compare .lt (.number 4)⟩

-- All that is computed with these rules is one statement, so that they are compiled once.
/-- The rules with the order of their evaluation, what they add to the first step, and what comes of the
steps that are bought: the charm adds one, and the curse leaves less than a fix can buy. -/
theorem run_cursedRuleset :
    (∀ rule ∈ cursedRuleset.graph.rules.toList, rule.formula.patterns = [] ∧
      ∀ key ∈ rule.keys, cursedRuleset.graph.hasTarget key = true →
        cursedRuleset.graph.evaluationOrder.idxOf key <
          cursedRuleset.graph.evaluationOrder.idxOf rule.target) ∧
    (∀ rule ∈ cursedRuleset.graph.rulesFor agility.die,
      [agility.dieRule].any (· == rule) = true) ∧
    (cursedRuleset.graph.hasTarget agility.allocation = false ∧
      (∀ s ∈ [charmed, cursed], ∀ rule ∈ (cursedRuleset.graph.rulesFor agility.step).drop 2,
        cursedRuleset.AddsBonus agility 4 s rule) ∧
      ∀ s ∈ [charmed, cursed], ∀ t ∈ agility.purchases 4 s,
        (∀ v ∈ cursedRuleset.stepSummands agility t, v.isWhole = true) ∧
          ∀ before ∈ (cursedRuleset.stepSummands agility t).inits,
            (Value.total before).natAbs < 2 ^ 53) ∧
    agility.bonus (cursedRuleset.evaluate charmed) = 2 ∧
    (∀ n ≤ 4, Number.lt (Attributes.number (cursedRuleset.evaluate (agility.buy n charmed))
      agility.step) 0 = false) ∧
    agility.bonus (cursedRuleset.evaluate cursed) = -5 ∧
    ∀ n ≤ 4, (cursedRuleset.evaluate (agility.buy n cursed))[agility.die]? = some (.number 4) ∧
      clumsy.holds (cursedRuleset.evaluate (agility.buy n cursed)) = false := by
  rw [cursedRuleset, compiledOf_eq_assembledOf]
  decide +kernel

theorem isAcyclic_cursedRuleset : cursedRuleset.graph.IsAcyclic :=
  (isCompiled_of_ofCatalog ofCatalog_cursedCatalog).built.consistent.isAcyclic_of_rank
    cursedRuleset.graph.evaluationOrder.idxOf run_cursedRuleset.1

deriving instance DecidableEq for RuleText

theorem rulesFor_agility : cursedRuleset.graph.rulesFor agility.die = [agility.dieRule] := by
  have compiled := isCompiled_of_ofCatalog ofCatalog_cursedCatalog
  have texts : (baseRules cursedCatalog).filter (·.target == agility.die) =
      [.computed agility.die agility.step Ability.dieFormula] := by decide +kernel
  have shared : sharedRules cursedCatalog agility.die = [agility.dieRule] := by
    rw [sharedRules, texts, List.filterMap_cons_some (RuleText.rule?_die _ _)]
    rfl
  have apart : (sharedRules cursedCatalog agility.die).Pairwise fun x y => (x == y) = false := by
    rw [shared]
    exact List.pairwise_singleton _ _
  have only : ∀ rule ∈ cursedRuleset.graph.rulesFor agility.die,
      (sharedRules cursedCatalog agility.die).any (· == rule) = true := by
    rw [shared]
    exact run_cursedRuleset.2.1
  exact (compiled.rulesFor_eq_sharedRules apart only).trans shared

theorem addsSteps_cursedRuleset :
    ∀ s ∈ [charmed, cursed], cursedRuleset.AddsSteps agility 4 [agility.firstRule] s := by
  intro s either
  obtain ⟨others, rules, -⟩ :=
    hasAbility_agility.exists_rulesFor_eq (isCompiled_of_ofCatalog ofCatalog_cursedCatalog)
  obtain ⟨-, -, ⟨raw, added, small⟩, -⟩ := run_cursedRuleset
  obtain ⟨unset, chosen⟩ :
      (∀ s ∈ [charmed, cursed], s[agility.step]? = none ∧ s[agility.die]? = none) ∧
      ∀ s ∈ [charmed, cursed], (s[agility.allocation]?).all Value.isWhole = true := by decide
  refine ⟨rulesFor_agility, raw, unset s either, chosen s either, fun rule member => ?_,
    fun t bought => ?_⟩
  · rw [rules] at member added
    rcases List.mem_append.mp member with start | member
    · exact .inl (List.mem_append_left _ start)
    · rcases List.mem_cons.mp member with rfl | other
      · exact .inl (List.mem_append_right _ List.mem_cons_self)
      · exact .inr (added s either rule other)
  · obtain ⟨whole, totals⟩ := small s either t bought
    exact Value.addExactly_of_small whole totals

/-- With the charm, two steps are enough for a die of ten. -/
theorem dieOfAllocation_eq_iff_charmed : ofCatalog cursedCatalog = .ok cursedRuleset ∧
    cursedRuleset.graph.IsAcyclic ∧
    cursedRuleset.AddsSteps agility 4 [agility.firstRule] charmed ∧
    Fix.dieOfAllocation (agility.bonus (cursedRuleset.evaluate charmed)) (.ofNat 2) =
      (cursedRuleset.evaluate (agility.buy 2 charmed))[agility.die]? ∧
    ∃ fix, Fix.ofAbility? agility 4 (cursedRuleset.evaluate charmed) nimble.test = some fix ∧
      nimble.holds (cursedRuleset.evaluate (fix.apply charmed)) = true := by
  have adds := addsSteps_cursedRuleset charmed List.mem_cons_self
  obtain ⟨-, -, -, bonus, positive, -⟩ := run_cursedRuleset
  obtain ⟨predicts, holds⟩ := dieOfAllocation_eq_iff
    (isCompiled_of_ofCatalog ofCatalog_cursedCatalog) isAcyclic_cursedRuleset hasAbility_agility adds
  obtain ⟨fix, planned⟩ : ∃ fix,
      Fix.ofAbility? agility 4 (cursedRuleset.evaluate charmed) nimble.test = some fix := by
    refine Option.isSome_iff_exists.mp (Fix.isSome_ofAbility? (show 2 ≤ 4 by decide) ?_)
    rw [bonus]
    decide
  refine ⟨ofCatalog_cursedCatalog, isAcyclic_cursedRuleset, adds,
    (predicts 2 (by decide)).mpr (positive 2 (by decide)), fix, planned,
    holds nimble fix rfl (by decide) planned ?_⟩
  obtain ⟨n, bound, rfl, -⟩ := Fix.exists_of_ofAbility? planned
  exact positive n bound

/-- With the curse, each number of steps that can be bought leaves a negative step. The fix counts on no
die there and is planned, but the smallest die stays and the comparison fails. -/
theorem exists_planFix_clumsy : ofCatalog cursedCatalog = .ok cursedRuleset ∧
    cursedRuleset.graph.IsAcyclic ∧
    cursedRuleset.AddsSteps agility 4 [agility.firstRule] cursed ∧
    Fix.dieOfAllocation (agility.bonus (cursedRuleset.evaluate cursed)) (.ofNat 4) = none ∧
    (cursedRuleset.evaluate (agility.buy 4 cursed))[agility.die]? = some (.number 4) ∧
    ∃ fix, (cursedRuleset.planFix clumsy (cursedRuleset.evaluate cursed) (.ofSeed 1)).1 = some fix ∧
      clumsy.holds (cursedRuleset.evaluate (fix.apply cursed)) = false := by
  obtain ⟨-, -, -, -, -, bonus, fails⟩ := run_cursedRuleset
  have absent : Fix.dieOfAllocation (agility.bonus (cursedRuleset.evaluate cursed)) (.ofNat 4) =
      none := by
    rw [bonus]
    decide
  have own : Text.afterStart? agility.die "features." = none := by decide
  have still : toggleStarts.any (Text.startsWith agility.die) = false := by decide
  have other : Text.afterStart? agility.die "skills." = none := by decide
  have listed : cursedRuleset.attributeOf? agility.die = some "Agility" := by decide +kernel
  have plan : (cursedRuleset.planFix clumsy (cursedRuleset.evaluate cursed) (.ofSeed 1)).1 =
      Fix.ofAbility? agility 4 (cursedRuleset.evaluate cursed) clumsy.test := by
    simp only [planFix, clumsy, own, still, other, listed, Bool.false_eq_true, if_false]
    rfl
  obtain ⟨fix, planned⟩ : ∃ fix,
      Fix.ofAbility? agility 4 (cursedRuleset.evaluate cursed) clumsy.test = some fix := by
    refine Option.isSome_iff_exists.mp (Fix.isSome_ofAbility? (Nat.le_refl 4) ?_)
    rw [absent]
    decide
  have adds := addsSteps_cursedRuleset cursed (.tail _ List.mem_cons_self)
  refine ⟨ofCatalog_cursedCatalog, isAcyclic_cursedRuleset, adds, absent, (fails 4 (by decide)).1, fix, plan.trans planned, ?_⟩
  obtain ⟨n, bound, rfl, -⟩ := Fix.exists_of_ofAbility? planned
  exact (fails n bound).2

end Ruleset

end CharacterRules
