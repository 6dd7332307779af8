import CharacterRules.Proofs.Rule.Repetition
import CharacterRules.Proofs.Rule.Summand
import CharacterRules.Proofs.Ruleset.BaseRule

/-!
What skills cost. A skill spends the steps that are bought for it and, if it is linked to an attribute,
as much again of each step above the step of the attribute. The surcharge is a formula put together
from the attribute's name, so the right attribute is charged if its key is a name in a formula.
-/

namespace CharacterRules

open Formula

namespace Number

/-- The sum of numbers, from the first one on. -/
def sum : List Number → Number
  | [] => 0
  | x :: rest => rest.foldl (· + ·) x

end Number

namespace Value

/-- Values that are numbers, or texts of numbers, add up to the sum of the numbers. -/
theorem numberOrZero_addAll {values : List Value} {numbers : List Number}
    (h : values.map number? = numbers.map some) :
    numberOrZero (addAll values) = Number.sum numbers := by
  cases values with
  | nil =>
      obtain rfl := List.map_eq_nil_iff.mp h.symm
      rfl
  | cons v values =>
      obtain ⟨x, numbers, rfl, first, later⟩ := List.map_eq_cons_iff.mp h.symm
      have along : ∀ (values : List Value) (numbers : List Number) (v : Value) (x : Number),
          v.number? = some x → values.map number? = numbers.map some →
          numberOrZero (values.foldl Operator.add.combine (some v)) =
            numbers.foldl (· + ·) x := by
        intro values
        induction values with
        | nil =>
            intro numbers v x first rest
            obtain rfl := List.map_eq_nil_iff.mp rest.symm
            show (v.number?).getD 0 = x
            rw [first]
            rfl
        | cons w values ih =>
            intro numbers v x first rest
            obtain ⟨y, numbers, rfl, second, rest⟩ := List.map_eq_cons_iff.mp rest.symm
            have added : Operator.add.combine (some v) w = some (.number (x + y)) := by
              simp only [Operator.combine, first, ← second]
            rw [List.foldl_cons, added]
            exact ih numbers (.number (x + y)) (x + y) rfl rest.symm
      exact along values numbers v x first.symm later.symm

end Value

/-- A sum of integers in which nothing is rounded is the sum of the integers. -/
theorem Number.toInt?_sum {numbers : List Number}
    (exact : Value.AddExactly (numbers.map Value.number)) :
    (Number.sum numbers).toInt? = some (numbers.filterMap toInt?).sum := by
  have reads : (numbers.map Value.number).map Value.number? = numbers.map some := by
    rw [List.map_map]
    rfl
  have total : Value.total (numbers.map Value.number) = (numbers.filterMap toInt?).sum := by
    rw [Value.total, List.filterMap_map]
    rfl
  rw [← Value.numberOrZero_addAll reads, ← total]
  exact Value.toInt?_addAll exact

namespace Ruleset

open RuleText

/-- The texts of the rules by which a skill spends points. -/
def spendingTexts (c : Catalog) (name : String) : List RuleText :=
  let s := Ability.ofSkill name
  .summand "skillPointsAllocated" s.allocation none ::
    ((linkedAttribute? c name).map fun linked =>
      .summand "skillPointsAllocated" s.step (surchargeFormula linked)).toList

theorem filter_attributeRules_skillPoints (name : String) :
    (attributeRules name).filter (·.target == "skillPointsAllocated") = [] := by
  have die : (Ability.ofAttribute name).die ≠ "skillPointsAllocated" := by
    intro same
    refine Unicode.capital_not_mem_lowercase (x := 'A') (by decide) name ?_
    have key : Unicode.lowercase name = "skillPointsAllocated" := same
    rw [key]
    decide
  have step : (Ability.ofAttribute name).step ≠ "skillPointsAllocated" :=
    append_ne_of_not_isSuffix (by decide) _
  have roll : (Ability.ofAttribute name).roll ≠ "skillPointsAllocated" :=
    append_ne_of_not_isSuffix (by decide) _
  rw [List.filter_eq_nil_iff]
  simp only [attributeRules, List.mem_cons, List.not_mem_nil, or_false]
  rintro x (rfl | rfl | rfl | rfl | rfl) <;> rw [beq_iff_eq]
  · exact step
  · exact step
  · exact die
  · exact show "attributePointsAllocated" ≠ _ by decide
  · exact roll

theorem filter_skillRules_skillPoints (c : Catalog) (name : String) :
    (skillRules c name).filter (·.target == "skillPointsAllocated") = spendingTexts c name := by
  have step : (Ability.ofSkill name).step ≠ "skillPointsAllocated" :=
    append_ne_of_not_isPrefix (by decide) _
  have die : (Ability.ofSkill name).die ≠ "skillPointsAllocated" :=
    append_ne_of_not_isPrefix (by decide) _
  have roll : (Ability.ofSkill name).roll ≠ "skillPointsAllocated" :=
    append_ne_of_not_isPrefix (by decide) _
  simp only [skillRules, List.filter_append, List.filter_cons, RuleText.summand, RuleText.computed,
    beq_iff_eq, step, die, roll, if_true, if_false, List.filter_nil, List.singleton_append]
  rw [spendingTexts]
  cases linkedAttribute? c name <;> rfl

theorem filter_baseRules_skillPoints (c : Catalog) :
    (baseRules c).filter (·.target == "skillPointsAllocated") =
      (c.names "skills").flatMap (spendingTexts c) := by
  have values := filter_baseValues_eq_nil "skillPointsAllocated" (by decide)
  have derived : derivedRules.filter (·.target == "skillPointsAllocated") = [] := by decide
  have budgets : (Budget.all.map fun b => RuleText.constant b.fact b.formula).filter
      (·.target == "skillPointsAllocated") = [] := by decide
  have attributes : (c.names "attributes").flatMap
      (fun name => (attributeRules name).filter (·.target == "skillPointsAllocated")) = [] :=
    List.flatMap_eq_nil_iff.mpr fun name _ => filter_attributeRules_skillPoints name
  have skills := congrArg (c.names "skills").flatMap
    (funext fun name => filter_skillRules_skillPoints c name)
  rw [baseRules, List.filter_append, List.filter_append, List.filter_append, List.filter_append,
    values, derived, budgets, List.filter_flatMap, List.filter_flatMap, attributes, skills]
  simp

/-- The rules by which a skill spends points. -/
def spendingRules (c : Catalog) (name : String) : List Rule :=
  let s := Ability.ofSkill name
  ⟨"skillPointsAllocated", s.allocation, .add, .passThrough⟩ ::
    ((linkedAttribute? c name).map fun linked =>
      ⟨"skillPointsAllocated", s.step, .add, .expr (surchargeExpr linked)⟩).toList

theorem sharedRules_skillPoints {c : Catalog}
    (named : ∀ skill ∈ c.names "skills", ∀ linked ∈ linkedAttribute? c skill,
      isName (Ability.ofAttribute linked).step.toList = true) :
    sharedRules c "skillPointsAllocated" = (c.names "skills").flatMap (spendingRules c) := by
  rw [sharedRules, filter_baseRules_skillPoints, List.filterMap_flatMap]
  refine List.flatMap_congr fun name listed => ?_
  rw [spendingTexts, spendingRules, List.filterMap_cons_some (RuleText.rule?_passed _ _)]
  cases found : linkedAttribute? c name with
  | none => rfl
  | some linked =>
      simp only [Option.map_some, Option.toList_some]
      rw [List.filterMap_cons_some (rule?_surcharge (named name listed linked found) _ _)]
      rfl

theorem source_of_mem_spendingRules {c : Catalog} {name : String} {rule : Rule}
    (h : rule ∈ spendingRules c name) :
    rule.source = "skillAllocation." ++ name ∨ rule.source = "skillStep." ++ name := by
  rw [spendingRules, List.mem_cons, Option.mem_toList, Option.map_eq_some_iff] at h
  rcases h with rfl | ⟨linked, -, rfl⟩
  · exact .inl rfl
  · exact .inr rfl

theorem add_of_mem_spendingRules {c : Catalog} {name : String} {rule : Rule}
    (h : rule ∈ spendingRules c name) : rule.op = .add := by
  rw [spendingRules, List.mem_cons, Option.mem_toList, Option.map_eq_some_iff] at h
  rcases h with rfl | ⟨linked, -, rfl⟩ <;> rfl

theorem skillAllocation_ne_skillStep (a b : String) : "skillAllocation." ++ a ≠ "skillStep." ++ b :=
  append_ne_append (by decide) (by decide) a b

theorem pairwise_spendingRules (c : Catalog) :
    ((c.names "skills").flatMap (spendingRules c)).Pairwise fun x y => (x == y) = false := by
  have apart : ∀ {x y : Rule}, x.source ≠ y.source → (x == y) = false := fun differ =>
    Bool.eq_false_iff.mpr fun same => differ (Rule.beq_iff.mp same).2.1
  refine List.pairwise_flatMap.mpr ⟨fun name _ => ?_, ?_⟩
  · rw [spendingRules]
    cases linkedAttribute? c name with
    | none => exact List.pairwise_singleton _ _
    | some linked =>
        exact List.pairwise_pair.mpr (apart (skillAllocation_ne_skillStep name name))
  · have distinct : (c.names "skills").Nodup := Std.TreeMap.nodup_keys
    refine distinct.imp fun {a b} differ x first y second => apart fun same => ?_
    rcases source_of_mem_spendingRules first with own | own <;>
      rcases source_of_mem_spendingRules second with other | other <;>
      rw [own, other] at same
    · exact differ (String.append_right_inj _ |>.mp same)
    · exact skillAllocation_ne_skillStep _ _ same
    · exact skillAllocation_ne_skillStep _ _ same.symm
    · exact differ (String.append_right_inj _ |>.mp same)

/-- What a skill costs on a sheet: the steps that are bought, and the steps above the linked
attribute. -/
def skillCosts (c : Catalog) (sheet : Snapshot) (name : String) : List Number :=
  let s := Ability.ofSkill name
  (if truthy sheet[s.allocation]? then [Attributes.number sheet s.allocation] else []) ++
    (linkedAttribute? c name).toList.flatMap fun linked =>
      if truthy sheet[s.step]? then
        [(Attributes.number sheet s.step -
          Attributes.number sheet (Ability.ofAttribute linked).step).max 0]
      else []

theorem eval_surchargeExpr (linked : String) (source : Option Value) (sheet : Attributes) :
    (surchargeExpr linked).eval ⟨source, sheet⟩ = some (.number
      ((numberOrZero source - sheet.number (Ability.ofAttribute linked).step).max 0)) := by
  have step : ((Ability.ofAttribute linked).step == "source") = false :=
    beq_eq_false_iff_ne.mpr (append_ne_of_not_isSuffix (by decide) _)
  simp only [surchargeExpr, Expr.eval, Expr.evalAll, step, BEq.rfl, Bool.false_eq_true, if_true,
    if_false]
  rfl

theorem summand?_allocation (sheet : Snapshot) (target name : String) :
    Rule.summand? sheet ⟨target, (Ability.ofSkill name).allocation, .add, .passThrough⟩ =
      if truthy sheet[(Ability.ofSkill name).allocation]? then
        sheet[(Ability.ofSkill name).allocation]? else none :=
  Rule.summand?_of_ne (append_ne_of_not_isPrefix (by decide) name) sheet

theorem summand?_surcharge (sheet : Snapshot) (target name linked : String) :
    Rule.summand? sheet
        ⟨target, (Ability.ofSkill name).step, .add, .expr (surchargeExpr linked)⟩ =
      if truthy sheet[(Ability.ofSkill name).step]? then
        some (.number ((Attributes.number sheet (Ability.ofSkill name).step -
          Attributes.number sheet (Ability.ofAttribute linked).step).max 0))
      else none :=
  (Rule.summand?_of_ne (append_ne_of_not_isPrefix (by decide) name) sheet).trans
    (if_congr Iff.rfl (eval_surchargeExpr linked _ sheet) rfl)

theorem number?_summands_spendingRules {c : Catalog} {sheet : Snapshot} {name : String}
    (number : ∀ v, sheet[(Ability.ofSkill name).allocation]? = some v → v.number?.isSome = true) :
    ((spendingRules c name).filterMap (Rule.summand? sheet)).map Value.number? =
      (skillCosts c sheet name).map some := by
  have allocation : ((Rule.summand? sheet ⟨"skillPointsAllocated", (Ability.ofSkill name).allocation,
      .add, .passThrough⟩).toList).map Value.number? =
        (if truthy sheet[(Ability.ofSkill name).allocation]? then
          [Attributes.number sheet (Ability.ofSkill name).allocation] else []).map some := by
    rw [summand?_allocation, Attributes.number]
    cases found : sheet[(Ability.ofSkill name).allocation]? with
    | none => rfl
    | some v =>
        obtain ⟨n, reads⟩ := Option.isSome_iff_exists.mp (number v found)
        cases truthy (some v) with
        | false => rfl
        | true => simp [numberOrZero, reads]
  have surcharge : ∀ linked, ((Rule.summand? sheet ⟨"skillPointsAllocated",
      (Ability.ofSkill name).step, .add, .expr (surchargeExpr linked)⟩).toList).map Value.number? =
        (if truthy sheet[(Ability.ofSkill name).step]? then
          [(Attributes.number sheet (Ability.ofSkill name).step -
            Attributes.number sheet (Ability.ofAttribute linked).step).max 0] else []).map some := by
    intro linked
    rw [summand?_surcharge]
    cases truthy sheet[(Ability.ofSkill name).step]? <;> rfl
  rw [spendingRules, skillCosts, List.filterMap_eq_flatMap_toList, List.flatMap_cons,
    List.map_append, List.map_append, allocation]
  congr 1
  cases linkedAttribute? c name with
  | none => rfl
  | some linked =>
      rw [Option.map_some, Option.toList_some, Option.toList_some, List.flatMap_singleton,
        List.flatMap_singleton, surcharge]

theorem rulesFor_skillPointsAllocated {r : Ruleset} (compiled : r.IsCompiled)
    (named : ∀ skill ∈ r.catalog.names "skills", ∀ linked ∈ linkedAttribute? r.catalog skill,
      isName (Ability.ofAttribute linked).step.toList = true)
    (only : ∀ rule ∈ r.graph.rulesFor "skillPointsAllocated",
      (sharedRules r.catalog "skillPointsAllocated").any (· == rule) = true) :
    r.graph.rulesFor "skillPointsAllocated" =
      (r.catalog.names "skills").flatMap (spendingRules r.catalog) := by
  have shared := sharedRules_skillPoints named
  rw [← shared]
  refine compiled.rulesFor_eq_sharedRules ?_ only
  rw [shared]
  exact pairwise_spendingRules r.catalog

/-- The costs of all skills of a catalog, in its order. -/
def allSkillCosts (c : Catalog) (sheet : Snapshot) : List Number :=
  (c.names "skills").flatMap (skillCosts c sheet)

/-- The points that skills spend are the sum of their costs. Without rounding that is the sum of
integers, if the costs are integers. -/
theorem number_skillPointsAllocated {r : Ruleset} (compiled : r.IsCompiled)
    (acyclic : r.graph.IsAcyclic)
    (named : ∀ skill ∈ r.catalog.names "skills", ∀ linked ∈ linkedAttribute? r.catalog skill,
      isName (Ability.ofAttribute linked).step.toList = true)
    (only : ∀ rule ∈ r.graph.rulesFor "skillPointsAllocated",
      (sharedRules r.catalog "skillPointsAllocated").any (· == rule) = true)
    {s : Selection} (unset : s["skillPointsAllocated"]? = none)
    (chosen : ∀ skill ∈ r.catalog.names "skills", ∀ v,
      s[(Ability.ofSkill skill).allocation]? = some v → v.number?.isSome = true)
    (written : ∀ skill ∈ r.catalog.names "skills",
      r.graph.hasTarget (Ability.ofSkill skill).allocation = true →
      ∀ v, (r.evaluate s)[(Ability.ofSkill skill).allocation]? = some v →
        v.number?.isSome = true) :
    Attributes.number (r.evaluate s) "skillPointsAllocated" =
        Number.sum (allSkillCosts r.catalog (r.evaluate s)) ∧
      (Value.AddExactly ((allSkillCosts r.catalog (r.evaluate s)).map Value.number) →
        (Attributes.number (r.evaluate s) "skillPointsAllocated").toInt? =
          some ((allSkillCosts r.catalog (r.evaluate s)).filterMap Number.toInt?).sum) := by
  have numbers : ∀ skill ∈ r.catalog.names "skills", ∀ v,
      (r.evaluate s)[(Ability.ofSkill skill).allocation]? = some v → v.number?.isSome = true := by
    intro skill listed
    cases target : r.graph.hasTarget (Ability.ofSkill skill).allocation with
    | true => exact written skill listed target
    | false =>
        rw [evaluate, compiled.built.consistent.getElem?_evaluate_of_unwritten target]
        exact chosen skill listed
  have rules := rulesFor_skillPointsAllocated compiled named only
  have adds : ∀ rule ∈ r.graph.rulesFor "skillPointsAllocated", rule.op = .add := by
    rw [rules]
    intro rule member
    obtain ⟨name, -, own⟩ := List.mem_flatMap.mp member
    exact add_of_mem_spendingRules own
  have total : Attributes.number (r.evaluate s) "skillPointsAllocated" =
      Number.sum (allSkillCosts r.catalog (r.evaluate s)) := by
    rw [Attributes.number, evaluate, compiled.built.consistent.getElem?_evaluate acyclic unset,
      RuleGraph.evaluateRules_of_add adds, rules]
    refine Value.numberOrZero_addAll ?_
    rw [Option.toList_none, List.nil_append, List.filterMap_flatMap, List.map_flatMap, allSkillCosts,
      List.map_flatMap]
    exact List.flatMap_congr fun name listed =>
      number?_summands_spendingRules (numbers name listed)
  refine ⟨total, fun exact => ?_⟩
  rw [total]
  exact Number.toInt?_sum exact

/-- Whether the order of evaluation shows that there are no circles, and the points that skills spend
have no rules but shared ones. -/
def SpendsOnSkills (r : Ruleset) : Prop :=
  (∀ rule ∈ r.graph.rules.toList, rule.formula.patterns = [] ∧
    ∀ key ∈ rule.keys, r.graph.hasTarget key = true →
      r.graph.evaluationOrder.idxOf key < r.graph.evaluationOrder.idxOf rule.target) ∧
  ∀ rule ∈ r.graph.rulesFor "skillPointsAllocated",
    (sharedRules r.catalog "skillPointsAllocated").any (· == rule) = true

instance (r : Ruleset) : Decidable (SpendsOnSkills r) := by
  unfold SpendsOnSkills
  infer_instance

def fightingAndEclat : Selection :=
  {("skillAllocation.Fighting", .number 3), ("skillAllocation.Éclat", .number 2)}

/-- Two of the three steps of fighting are above the step of agility. -/
theorem number_skillPointsAllocated_linkedCatalog : ∃ r, ofCatalog linkedCatalog = .ok r ∧
    r.graph.IsAcyclic ∧ SpendsOnSkills r ∧
    allSkillCosts linkedCatalog (r.evaluate fightingAndEclat) = [3, 2, 2] ∧
    Attributes.number (r.evaluate fightingAndEclat) "skillPointsAllocated" = 7 := by
  have fit : KeysFit linkedCatalog := by decide +kernel
  have compiled := ofCatalog_eq_of_keysFit fit
  have isCompiled := isCompiled_of_ofCatalog compiled
  obtain ⟨spends, unwritten, costs⟩ : SpendsOnSkills (assembledOf linkedCatalog) ∧
      (∀ skill ∈ linkedCatalog.names "skills",
        (assembledOf linkedCatalog).graph.hasTarget (Ability.ofSkill skill).allocation = false) ∧
      allSkillCosts linkedCatalog ((assembledOf linkedCatalog).evaluate fightingAndEclat) =
        [3, 2, 2] := by decide +kernel
  have chosen : ∀ skill ∈ linkedCatalog.names "skills",
      (fightingAndEclat[(Ability.ofSkill skill).allocation]?).all (·.number?.isSome) = true := by
    decide +kernel
  have unset : fightingAndEclat["skillPointsAllocated"]? = none := by decide
  have acyclic := isCompiled.built.consistent.isAcyclic_of_rank _ spends.1
  obtain ⟨total, -⟩ := number_skillPointsAllocated isCompiled acyclic fit.linked spends.2 unset
    (fun skill listed v found => by simpa [found] using chosen skill listed)
    (fun skill listed written => by rw [unwritten skill listed] at written; cases written)
  have sum : Number.sum [3, 2, 2] = 7 := by decide
  exact ⟨_, compiled, acyclic, spends, costs, total.trans ((congrArg Number.sum costs).trans sum)⟩

/-- A skill that is linked to an attribute with a hyphen. -/
def willPowerCatalog : Catalog :=
  .ofSource {("attributes", {("Will-Power", "")}), ("skills", {("Focus", "Attribute=\"Will-Power\"")})}

def oneFocus : Selection := {("skillAllocation.Focus", .number 1)}

/-- The hyphen is read as a minus sign between two attributes that do not exist, so the surcharge of the
first step is not zero. -/
theorem number_skillPointsAllocated_willPowerCatalog : ∃ r, ofCatalog willPowerCatalog = .ok r ∧
    r.graph.IsAcyclic ∧ SpendsOnSkills r ∧
    linkedAttribute? willPowerCatalog "Focus" = some "Will-Power" ∧
    allSkillCosts willPowerCatalog (r.evaluate oneFocus) = [1, 0] ∧
    Attributes.number (r.evaluate oneFocus) "skillPointsAllocated" = 2 := by
  have compiled : ofCatalog willPowerCatalog = .ok (assembledOf willPowerCatalog) := by
    rw [← compiledOf_eq_assembledOf]
    exact ofCatalog_eq_compiledOf (by decide +kernel) (by decide +kernel) (by decide +kernel)
  obtain ⟨spends, rest⟩ : SpendsOnSkills (assembledOf willPowerCatalog) ∧
      linkedAttribute? willPowerCatalog "Focus" = some "Will-Power" ∧
      allSkillCosts willPowerCatalog ((assembledOf willPowerCatalog).evaluate oneFocus) = [1, 0] ∧
      Attributes.number ((assembledOf willPowerCatalog).evaluate oneFocus)
        "skillPointsAllocated" = 2 := by decide +kernel
  have consistent := (isCompiled_of_ofCatalog compiled).built.consistent
  exact ⟨_, compiled, consistent.isAcyclic_of_rank _ spends.1, spends, rest⟩

end Ruleset
end CharacterRules
