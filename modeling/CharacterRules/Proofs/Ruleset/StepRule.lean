import CharacterRules.Proofs.Rule.Summand
import CharacterRules.Proofs.Ruleset.BaseRule

/-!
The rules onto the steps of abilities. Those of an attribute begin with the first step and the steps that
are bought, those of a skill with the steps that are bought; any other rule comes after these.
-/

namespace CharacterRules

open RuleGraph

theorem lowercase_ne_append {x : Char} (capital : 65 ≤ x.toNat ∧ x.toNat ≤ 90) {ending : String}
    (member : x ∈ ending.toList) (text front : String) : Unicode.lowercase text ≠ front ++ ending := by
  intro same
  refine Unicode.capital_not_mem_lowercase capital text ?_
  rw [same, String.toList_append]
  exact List.mem_append_right _ member

/-- A text in lower case with an ending does not begin with a capital and later a point, unless the
ending has the point. -/
theorem lowercase_append_ne {start : String} (capital : 'S' ∈ start.toList)
    (point : start.toList.getLast? = some '.') {ending : String} (plain : '.' ∉ ending.toList)
    (text rest : String) : Unicode.lowercase text ++ ending ≠ start ++ rest := by
  intro same
  have lower := Unicode.capital_not_mem_lowercase (x := 'S') (by decide) text
  have chars := congrArg String.toList same
  rw [String.toList_append, String.toList_append] at chars
  -- The text ends before the capital, so the ending takes in the point at the end of `start`.
  rcases List.append_eq_append_iff.mp chars with ⟨middle, split, cut⟩ | ⟨middle, split, -⟩
  · rw [split] at point capital
    cases middle using List.reverseRecOn with
    | nil => exact lower (by simpa using capital)
    | append_singleton middle last =>
        rw [← List.append_assoc, List.getLast?_concat, Option.some.injEq] at point
        refine plain ?_
        rw [cut, point]
        simp
  · exact lower (split ▸ List.mem_append_left _ capital)

namespace Ability

/-- The rule by which an attribute begins at the first step. -/
def firstRule (a : Ability) : Rule := ⟨a.step, "", .set, .literal (.number 1)⟩

/-- The rule that adds the steps which are bought. -/
def allocationRule (a : Ability) : Rule := ⟨a.step, a.allocation, .add, .passThrough⟩

/-- The rule of the die. -/
def dieRule (a : Ability) : Rule := ⟨a.die, a.step, .set, .expr dieExpr⟩

end Ability

namespace Ruleset

theorem exists_flatMap_eq_append {α β : Type} {f : α → List β} {block : List β} {xs : List α}
    (either : ∀ x ∈ xs, f x = block ∨ f x = []) {x : α} (member : x ∈ xs) (own : f x = block) :
    ∃ more, xs.flatMap f = block ++ more := by
  induction xs with
  | nil => cases member
  | cons y ys ih =>
      obtain ⟨now, later⟩ := List.forall_mem_cons.mp either
      rw [List.flatMap_cons]
      rcases now with now | now
      · exact ⟨_, congrArg (· ++ _) now⟩
      · rcases List.mem_cons.mp member with rfl | member
        · exact ⟨_, congrArg (· ++ _) own⟩
        · rw [now]
          exact ih later member

theorem filter_attributeRules_step (name other : String) :
    (attributeRules other).filter (·.target == (Ability.ofAttribute name).step) =
      if Ability.attributeKey other = Ability.attributeKey name then
        let a := Ability.ofAttribute name
        [.constant a.step "1", .summand a.step a.allocation none]
      else [] := by
  have die : (Ability.ofAttribute other).die ≠ (Ability.ofAttribute name).step :=
    lowercase_ne_append (x := 'S') (by decide) (by decide) other _
  have points : "attributePointsAllocated" ≠ (Ability.ofAttribute name).step :=
    (append_ne_of_not_isSuffix (by decide) _).symm
  have roll : (Ability.ofAttribute other).roll ≠ (Ability.ofAttribute name).step := by
    intro same
    have chars := congrArg (·.toList.getLast?) same
    have endings : (Ability.ofAttribute other).roll.toList.getLast? = some 'l' ∧
        (Ability.ofAttribute name).step.toList.getLast? = some 'p' := by
      constructor <;> simp [Ability.ofAttribute, List.getLast?_append]
    rw [endings.1, endings.2] at chars
    cases chars
  have step : (Ability.ofAttribute other).step = (Ability.ofAttribute name).step ↔
      Ability.attributeKey other = Ability.attributeKey name := String.append_left_inj _
  simp only [attributeRules, List.filter_cons, RuleText.constant, RuleText.summand,
    RuleText.computed, beq_iff_eq, die, points, roll, step, if_false, List.filter_nil]
  split
  · rename_i same
    have keys : Ability.ofAttribute other = Ability.ofAttribute name := by
      simp only [Ability.ofAttribute, same]
    rw [keys]
  · rfl

theorem filter_attributeRules_skillStep (name other : String) :
    (attributeRules other).filter (·.target == (Ability.ofSkill name).step) = [] := by
  have apart : ∀ ending : String, '.' ∉ ending.toList →
      Unicode.lowercase other ++ ending ≠ "skillStep." ++ name := fun ending plain =>
    lowercase_append_ne (by decide) (by decide) plain other name
  have die : (Ability.ofAttribute other).die ≠ (Ability.ofSkill name).step := fun same =>
    apart "" (by decide) (String.append_empty.trans same)
  have points : "attributePointsAllocated" ≠ (Ability.ofSkill name).step :=
    (append_ne_of_not_isPrefix (by decide) _).symm
  rw [List.filter_eq_nil_iff]
  simp only [attributeRules, List.mem_cons, List.not_mem_nil, or_false]
  rintro x (rfl | rfl | rfl | rfl | rfl) <;> rw [beq_iff_eq]
  · exact apart "Step" (by decide)
  · exact apart "Step" (by decide)
  · exact die
  · exact points
  · exact apart "Roll" (by decide)

theorem filter_skillRules_step (c : Catalog) (name other : String) :
    (skillRules c other).filter (·.target == (Ability.ofSkill name).step) =
      if other = name then
        let s := Ability.ofSkill name
        [.summand s.step s.allocation none]
      else [] := by
  have step : (Ability.ofSkill other).step = (Ability.ofSkill name).step ↔ other = name :=
    String.append_right_inj _
  have die : (Ability.ofSkill other).die ≠ (Ability.ofSkill name).step :=
    append_ne_append (by decide) (by decide) _ _
  have points : "skillPointsAllocated" ≠ (Ability.ofSkill name).step :=
    (append_ne_of_not_isPrefix (by decide) _).symm
  have roll : (Ability.ofSkill other).roll ≠ (Ability.ofSkill name).step :=
    append_ne_append (by decide) (by decide) _ _
  have surcharge : ((linkedAttribute? c other).map fun linked => RuleText.summand "skillPointsAllocated"
      (Ability.ofSkill other).step (surchargeFormula linked)).toList.filter
        (·.target == (Ability.ofSkill name).step) = [] := by
    rw [List.filter_eq_nil_iff]
    intro x member
    obtain ⟨linked, -, rfl⟩ := Option.map_eq_some_iff.mp (Option.mem_toList.mp member)
    exact fun same => points (eq_of_beq same)
  rw [skillRules, List.filter_append, surcharge]
  simp only [List.filter_cons, RuleText.summand, RuleText.computed, beq_iff_eq, step, die, points,
    roll, if_false, List.filter_nil, List.append_nil]
  split
  · rename_i same
    rw [same]
  · rfl

/-- The abilities of a catalog, with how many steps can be bought, and the shared rules onto the step that
come before these. -/
inductive HasAbility (c : Catalog) : Ability → Nat → List Rule → Prop where
  | ofAttribute (name : String) (known : name ∈ c.names "attributes") :
      HasAbility c (.ofAttribute name) (Ability.maxStep - 1) [(Ability.ofAttribute name).firstRule]
  | ofSkill (name : String) (known : name ∈ c.names "skills") :
      HasAbility c (.ofSkill name) Ability.maxStep []

namespace HasAbility

variable {c : Catalog} {a : Ability} {most : Nat} {first : List Rule}

theorem most_lt (h : HasAbility c a most first) : most < 2 ^ 53 := by
  cases h <;> decide

theorem step_ne_allocation (h : HasAbility c a most first) : a.step ≠ a.allocation := by
  cases h with
  | ofAttribute name known => exact fun same => absurd ((String.append_right_inj _).mp same) (by decide)
  | ofSkill name known => exact append_ne_append (by decide) (by decide) _ _

theorem die_ne_allocation (h : HasAbility c a most first) : a.die ≠ a.allocation := by
  cases h with
  | ofAttribute name known => exact lowercase_ne_append (x := 'A') (by decide) (by decide) name _
  | ofSkill name known => exact append_ne_append (by decide) (by decide) _ _

theorem step_ne_empty (h : HasAbility c a most first) : a.step ≠ "" := by
  cases h with
  | ofAttribute name known => exact append_ne_of_not_isSuffix (by decide) _
  | ofSkill name known => exact append_ne_of_not_isPrefix (by decide) _

theorem allocation_ne_empty (h : HasAbility c a most first) : a.allocation ≠ "" := by
  cases h with
  | ofAttribute name known => exact append_ne_of_not_isSuffix (by decide) _
  | ofSkill name known => exact append_ne_of_not_isPrefix (by decide) _

/-- What comes before the steps that are bought is the first step, or nothing. -/
theorem filterMap_summand?_first (h : HasAbility c a most first) (sheet : Attributes) :
    first.filterMap (Rule.summand? sheet) = first.map fun _ => .number 1 := by
  cases h <;> rfl

/-- A step that is not chosen is what comes before the steps that are bought, those steps, and what the
other rules add. -/
theorem evaluateRules_step (h : HasAbility c a most first) {others : List Rule}
    (adds : ∀ rule ∈ others, rule.op = .add) (sheet : Attributes) :
    evaluateRules (first ++ a.allocationRule :: others) none sheet =
      Value.addAll ((first ++ a.allocationRule :: others).filterMap (Rule.summand? sheet)) := by
  have all : ∀ rule ∈ a.allocationRule :: others, rule.op = .add :=
    List.forall_mem_cons.mpr ⟨rfl, adds⟩
  cases h with
  | ofAttribute name known =>
      rw [List.singleton_append, evaluateRules_cons_of_set rfl, evaluateRules_of_add all]
      rfl
  | ofSkill name known => exact evaluateRules_of_add all none sheet

theorem exists_sharedRules_eq (h : HasAbility c a most first) : ∃ more,
    sharedRules c a.step = first ++ a.allocationRule :: more := by
  cases h with
  | ofAttribute name known =>
      have plain : ∀ base ∈ baseValues, ¬ "Step".toList <:+ base.1.toList := by decide
      have values := filter_baseValues_eq_nil (Ability.ofAttribute name).step fun base listed =>
        (append_ne_of_not_isSuffix (plain base listed) _).symm
      -- Attributes whose names differ in case alone have the same rules, which come again.
      obtain ⟨more, attributes⟩ := exists_flatMap_eq_append (fun other _ =>
        (ite_eq_or_eq _ _ _).imp (filter_attributeRules_step name other).trans
          (filter_attributeRules_step name other).trans) known
        ((filter_attributeRules_step name name).trans (if_pos rfl))
      rw [sharedRules, baseRules, List.filter_append, List.filter_append, List.filter_append,
        List.filter_append, values, List.filter_flatMap, attributes, List.nil_append]
      simp only [List.append_assoc, List.cons_append, List.nil_append, List.filterMap_cons,
        RuleText.rule?_one, RuleText.rule?_passed]
      exact ⟨_, rfl⟩
  | ofSkill name known =>
      have plain : ∀ base ∈ baseValues, ¬ "skillStep.".toList <+: base.1.toList := by decide
      have values := filter_baseValues_eq_nil (Ability.ofSkill name).step fun base listed =>
        (append_ne_of_not_isPrefix (plain base listed) _).symm
      have attributes : (c.names "attributes").flatMap
          (fun other => (attributeRules other).filter (·.target == (Ability.ofSkill name).step)) = [] :=
        List.flatMap_eq_nil_iff.mpr fun other _ => filter_attributeRules_skillStep name other
      obtain ⟨more, skills⟩ := exists_flatMap_eq_append (fun other _ =>
        (ite_eq_or_eq _ _ _).imp (filter_skillRules_step c name other).trans
          (filter_skillRules_step c name other).trans) known
        ((filter_skillRules_step c name name).trans (if_pos rfl))
      rw [sharedRules, baseRules, List.filter_append, List.filter_append, List.filter_append,
        List.filter_append, values, List.filter_flatMap, attributes, List.filter_flatMap, skills]
      simp only [List.append_assoc, List.cons_append, List.nil_append, List.filterMap_cons,
        RuleText.rule?_passed]
      exact ⟨_, rfl⟩

theorem apart (h : HasAbility c a most first) :
    (first ++ [a.allocationRule]).Pairwise fun x y => (x == y) = false := by
  cases h with
  | ofAttribute name known =>
      refine List.pairwise_pair.mpr (Bool.eq_false_iff.mpr fun same => ?_)
      obtain ⟨-, -, op, -⟩ := Rule.beq_iff.mp same
      cases op
  | ofSkill name known => exact List.pairwise_singleton _ _

theorem beq_self (h : HasAbility c a most first) :
    ∀ rule ∈ first ++ [a.allocationRule], (rule == rule) = true := by
  have bought : (a.allocationRule == a.allocationRule) = true :=
    Rule.beq_iff.mpr ⟨rfl, rfl, rfl, rfl⟩
  cases h with
  | ofAttribute name known =>
      have begins := Rule.beq_iff (r := (Ability.ofAttribute name).firstRule).mpr
        ⟨rfl, rfl, rfl, rfl⟩
      exact List.forall_mem_cons.mpr ⟨begins, List.forall_mem_singleton.mpr bought⟩
  | ofSkill name known => exact List.forall_mem_singleton.mpr bought

/-- The rules onto the step begin with the shared ones, which do not come again. -/
theorem exists_rulesFor_eq {r : Ruleset} (compiled : r.IsCompiled)
    (h : HasAbility r.catalog a most first) : ∃ others,
    r.graph.rulesFor a.step = first ++ a.allocationRule :: others ∧
      ∀ rule ∈ others, rule ∉ first ++ [a.allocationRule] := by
  obtain ⟨added, rules⟩ := compiled.exists_rulesFor_eq a.step
  obtain ⟨more, shared⟩ := h.exists_sharedRules_eq
  have own : (first ++ [a.allocationRule]).foldl register [] = first ++ [a.allocationRule] :=
    @foldl_register_of_pairwise [] _ h.apart
  obtain ⟨others, all, -, fresh⟩ :=
    exists_foldl_register_eq (first ++ [a.allocationRule]) (more ++ added)
  rw [List.append_cons] at shared
  rw [shared, List.foldl_append, own, ← List.foldl_append, all, ← List.append_cons] at rules
  refine ⟨others, rules, fun rule member listed => ?_⟩
  have known : (first ++ [a.allocationRule]).any (· == rule) = true :=
    List.any_eq_true.mpr ⟨rule, listed, h.beq_self rule listed⟩
  rw [fresh rule member] at known
  cases known

end HasAbility

end Ruleset
end CharacterRules
