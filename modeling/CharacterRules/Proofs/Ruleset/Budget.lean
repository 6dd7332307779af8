import CharacterRules.Proofs.Attributes.Lookup
import CharacterRules.Proofs.Number.Difference
import CharacterRules.Proofs.Rule.Settled
import CharacterRules.Proofs.Ruleset.Compile

/-!
What the facts of budgets tell. A fact is computed from the points there are and the points spent, so
unless further rules write it, it reports an overspend only if more is spent than there is.
-/

namespace CharacterRules

open Formula

theorem Attributes.truthy_of_lt_zero {a : Attributes} {key : String}
    (h : Number.lt 0 (a.number key) = true) : truthy a[key]? = true := by
  rw [number, numberOrZero] at h
  cases found : a[key]? with
  | none =>
      rw [found] at h
      cases h
  | some v =>
      rw [found] at h
      cases v with
      | number n =>
          have defined : n.isNaN = false := by
            cases n with
            | nan => cases h
            | infinity _ | finite _ _ _ _ => rfl
          have nonzero : n.isZero = false := Number.isZero_of_lt_zero h
          show (!(n.isZero || n.isNaN)) = true
          rw [nonzero, defined]
          rfl
      | text s =>
          have filled : s ≠ "" := by
            rintro rfl
            exact absurd h (by decide)
          exact bne_iff_ne.mpr filled

namespace Budget

/-- Whether more is spent than there is. -/
def isExceeded (b : Budget) (sheet : Snapshot) : Bool :=
  (Attributes.number sheet b.points).lt (Attributes.number sheet b.spent)

/-- Whether the fact of the budget reports points that are overspent. -/
def reportsOverspend (b : Budget) (sheet : Snapshot) : Bool :=
  Number.lt 0 (Attributes.number sheet b.fact)

/-- Whether the fact of the budget is reported without points being overspent. -/
def reportsShortfall (b : Budget) (sheet : Snapshot) : Bool :=
  truthy sheet[b.fact]? && !b.reportsOverspend sheet

theorem isFactKey_fact {b : Budget} (h : b ∈ all) : isFactKey b.fact = true := by
  have facts : ∀ b ∈ all, isFactKey b.fact = true := by decide
  exact facts b h

theorem mem_all_of_ofCategory? {category : Category} {b : Budget}
    (h : ofCategory? category = some b) : b ∈ all := List.mem_of_find?_eq_some h

theorem isDirect_of_ofCategory? {category : Category} {b : Budget}
    (h : ofCategory? category = some b) : category.isDirect = false := by
  cases category <;> first | rfl | cases h

theorem mem_violations {b : Budget} (h : b ∈ all) {sheet : Snapshot} :
    b.fact ∈ Attributes.violations sheet ↔ truthy sheet[b.fact]? = true := by
  rw [Attributes.mem_violations, and_iff_right (isFactKey_fact h)]

end Budget

namespace Budget

/-- The expression of the fact. -/
def expr (b : Budget) : Expr :=
  let difference := Expr.binary .sub (.ident b.spent) (.ident b.points)
  if b.overspendOnly then .call .max [difference, .literal (.number 0)] else difference

/-- The rule of the fact that all characters share. -/
def rule (b : Budget) : Rule := ⟨b.fact, "", .set, .expr b.expr⟩

/-- What the names of a budget are in its formula. -/
theorem names_of_mem {b : Budget} (h : b ∈ all) :
    (isName b.spent.toList = true ∧ wordExpr b.spent = .ident b.spent ∧ b.spent ≠ "source") ∧
      isName b.points.toList = true ∧ wordExpr b.points = .ident b.points ∧
        b.points ≠ "source" := by
  simp only [all, List.mem_cons, List.not_mem_nil, or_false] at h
  rcases h with rfl | rfl | rfl | rfl | rfl
  all_goals exact ⟨⟨by decide, rfl, by decide⟩, by decide, rfl, by decide⟩

theorem parse_formula {b : Budget} (h : b ∈ all) : parse b.formula = .ok b.expr := by
  obtain ⟨⟨spent, hspent, -⟩, points, hpoints, -⟩ := names_of_mem h
  rw [formula, expr]
  split
  · rw [parse_positiveDifference spent points, hspent, hpoints]
  · rw [parse_difference spent points, hspent, hpoints]

/-- The shared rules hold the rule of the fact. -/
theorem ofText_formula {b : Budget} (h : b ∈ all) :
    Rule.ofText b.fact "" "=" (some b.formula) = .ok b.rule := by
  have plain : ∀ b ∈ all, Text.trim b.formula = b.formula ∧ (b.formula == "null") = false ∧
      Number.ofText? b.formula = none := by decide
  obtain ⟨trimmed, shown, noNumber⟩ := plain b h
  have reads : Rule.readFormula (some b.formula) = .ok (.expr b.expr) := by
    rw [Rule.readFormula, parseRule, trimmed]
    dsimp only
    rw [shown, if_neg Bool.false_ne_true, noNumber]
    dsimp only
    rw [parse_formula h]
    rfl
  rw [Rule.ofText, Operator.ofText_set, reads]
  rfl

theorem evaluateRules_rule (b : Budget) (sheet : Attributes) :
    RuleGraph.evaluateRules [b.rule] none sheet = b.expr.eval ⟨none, sheet⟩ := by
  change Rule.contribute sheet none b.rule = _
  have fires : b.rule.fires sheet = true := rfl
  have value : b.rule.contribution? sheet = b.expr.eval ⟨none, sheet⟩ := rfl
  rw [Rule.contribute, fires, if_pos rfl, value]
  cases b.expr.eval ⟨none, sheet⟩ <;> rfl

/-- The fact is what is spent less the points there are, or zero in place of what is left. -/
theorem number_eval_expr {b : Budget} (h : b ∈ all) (sheet : Attributes) :
    numberOrZero (b.expr.eval ⟨none, sheet⟩) =
      if b.overspendOnly then (sheet.number b.spent - sheet.number b.points).max 0
      else sheet.number b.spent - sheet.number b.points := by
  obtain ⟨⟨-, -, spent⟩, -, -, points⟩ := names_of_mem h
  have difference : (Expr.binary .sub (.ident b.spent) (.ident b.points)).eval ⟨none, sheet⟩ =
      some (.number (sheet.number b.spent - sheet.number b.points)) := by
    simp only [Expr.eval, beq_eq_false_iff_ne.mpr spent, beq_eq_false_iff_ne.mpr points,
      Bool.false_eq_true, if_false]
    rfl
  rw [expr]
  split
  · simp only [Expr.eval, Expr.evalAll] at difference ⊢
    rw [difference]
    rfl
  · rw [difference]
    rfl

/-- On a computed sheet the fact reports an overspend only if more is spent than there is, unless a
further rule writes it or the selection sets it. -/
theorem isExceeded_of_reportsOverspend {g : RuleGraph} (consistent : g.Consistent)
    (acyclic : g.IsAcyclic) {b : Budget} (h : b ∈ all) (only : g.rulesFor b.fact = [b.rule])
    {s : Selection} (unset : s[b.fact]? = none)
    (reported : b.reportsOverspend (g.evaluate s) = true) :
    b.isExceeded (g.evaluate s) = true := by
  rw [reportsOverspend, Attributes.number, consistent.getElem?_evaluate acyclic unset, only,
    evaluateRules_rule, number_eval_expr h] at reported
  refine Number.lt_of_lt_zero_sub ?_
  split at reported
  · exact Number.lt_zero_of_lt_zero_max reported
  · exact reported

end Budget
end CharacterRules
