import CharacterRules.Proofs.Note.Outline
import CharacterRules.Proofs.Rule.Reordering

/-!
Merged changes. What becomes of the changes of one target, from one source and by one operator, depends on
those changes alone: constants end up in one rule with all of them in it, in the order of the clauses.
-/

namespace CharacterRules

/-- Whether a rule contributes to a target from a source by an operator. -/
def Rule.isAt (target source : String) (op : Operator) (r : Rule) : Bool :=
  r.target == target && r.source == source && r.op == op

theorem Rule.isAt_congr {target source : String} {op : Operator} {r s : Rule} (h : (r == s) = true) :
    r.isAt target source op = s.isAt target source op := by
  obtain ⟨targets, sources, ops, -⟩ := Rule.beq_iff.mp h
  rw [isAt, isAt, targets, sources, ops]

namespace RuleGraph

/-- The rules that contribute to a target from a source by an operator. -/
def rulesAt (g : RuleGraph) (target source : String) (op : Operator) : List Rule :=
  g.rules.toList.filter (·.isAt target source op)

theorem Consistent.hasRule_eq_any {g : RuleGraph} (h : g.Consistent) (r : Rule) :
    g.hasRule r = (g.rulesAt r.target r.source r.op).any (· == r) := by
  rw [Bool.eq_iff_iff, hasRule, List.any_eq_true, List.any_eq_true]
  refine exists_congr fun s => and_congr_left fun equal => ?_
  obtain ⟨targets, sources, ops, -⟩ := Rule.beq_iff.mp equal
  rw [h.mem_rulesFor, rulesAt, List.mem_filter, Rule.isAt, targets, sources, ops]
  simp

/-- What is registered at a place is settled by the rules that are given for it. -/
theorem Consistent.rulesAt_defineAll {g : RuleGraph} (h : g.Consistent) (rules : List Rule)
    (target source : String) (op : Operator) : (g.defineAll rules).rulesAt target source op =
      (rules.filter (·.isAt target source op)).foldl register (g.rulesAt target source op) := by
  induction rules generalizing g with
  | nil => rfl
  | cons r rest ih =>
      have later : (g.defineAll (r :: rest)).rulesAt target source op =
          (rest.filter (·.isAt target source op)).foldl register
            ((g.define r).rulesAt target source op) := ih (h.define r)
      have first : (g.define r).rulesAt target source op =
          if r.isAt target source op then register (g.rulesAt target source op) r
          else g.rulesAt target source op := by
        rw [rulesAt, rules_define]
        by_cases own : r.isAt target source op = true
        · have place := own
          simp only [Rule.isAt, Bool.and_eq_true, beq_iff_eq] at place
          obtain ⟨⟨rfl, rfl⟩, rfl⟩ := place
          rw [if_pos own, register, ← h.hasRule_eq_any]
          split
          · rfl
          · rw [List.filter_append, List.filter_cons_of_pos own]
            rfl
        · rw [if_neg own]
          split
          · rfl
          · rw [List.filter_append, List.filter_cons_of_neg own, List.filter_nil, List.append_nil]
            rfl
      rw [later, first, List.filter_cons]
      split <;> rfl

end RuleGraph

namespace Note

namespace PendingDelta

/-- Whether a change is of a target, from a source and by an operator. -/
def isAt (target source : String) (op : Operator) (d : PendingDelta) : Bool :=
  d.target == target && d.source == source && d.op == op

theorem isAt_congr {d e : PendingDelta} (same : e.sameSlot d = true) (target source : String)
    (op : Operator) : d.isAt target source op = e.isAt target source op := by
  simp only [sameSlot, Bool.and_eq_true, beq_iff_eq] at same
  rw [isAt, isAt, same.1.1, same.1.2, same.2]

/-- A change is merged at its place and nowhere else. -/
theorem filter_push (d : PendingDelta) (waiting : List PendingDelta) (target source : String)
    (op : Operator) : (d.push waiting).filter (·.isAt target source op) =
      if d.isAt target source op then d.push (waiting.filter (·.isAt target source op))
      else waiting.filter (·.isAt target source op) := by
  induction waiting with
  | nil => cases here : d.isAt target source op <;> simp [push, here]
  | cons e rest ih =>
      rw [push]
      split
      · rename_i merges
        rw [isAt_congr merges]
        by_cases here : e.isAt target source op = true
        · rw [if_pos here, List.filter_cons_of_pos here, push, if_pos merges]
          exact List.filter_cons_of_pos here
        · rw [if_neg here, List.filter_cons_of_neg here]
          exact List.filter_cons_of_neg here
      · rename_i apart
        by_cases here : e.isAt target source op = true
        · rw [List.filter_cons_of_pos here, List.filter_cons_of_pos here, ih, push, if_neg apart]
          split <;> rfl
        · rw [List.filter_cons_of_neg here, List.filter_cons_of_neg here, ih]

end PendingDelta

theorem filter_mergeAll (waiting changes : List PendingDelta) (target source : String)
    (op : Operator) : (mergeAll waiting changes).filter (·.isAt target source op) =
      mergeAll (waiting.filter (·.isAt target source op))
        (changes.filter (·.isAt target source op)) := by
  induction changes generalizing waiting with
  | nil => rfl
  | cons d rest ih =>
      have first : mergeAll waiting (d :: rest) = mergeAll (d.push waiting) rest := rfl
      rw [first, ih, d.filter_push, List.filter_cons]
      split <;> rfl

/-- The number of two constants in one. -/
def mergeNumbers : Operator → Number → Number → Number
  | .multiply => (· * ·)
  | _ => (· + ·)

/-- The number of constants in one, from the first on. -/
def total? (op : Operator) : List Number → Option Number
  | [] => none
  | n :: rest => some (rest.foldl (mergeNumbers op) n)

section

variable (target source : String) (op : Operator)

/-- The change by a constant. -/
def constantChange (n : Number) : PendingDelta := ⟨target, source, op, .literal n⟩

/-- The rule of a change by a constant. -/
def constantRule (n : Number) : Rule := ⟨target, source, op, .literal (.number n)⟩

theorem push_constantChange (m n : Number) :
    (constantChange target source op n).push [constantChange target source op m] =
      [constantChange target source op (mergeNumbers op m n)] := by
  have same : (constantChange target source op m).sameSlot (constantChange target source op n) = true := by
    simp [PendingDelta.sameSlot, constantChange]
  rw [PendingDelta.push, if_pos same]
  cases op <;> rfl

theorem mergeAll_constantChanges (numbers : List Number) :
    mergeAll [] (numbers.map (constantChange target source op)) =
      (total? op numbers).toList.map (constantChange target source op) := by
  have later : ∀ (rest : List Number) (n : Number),
      mergeAll [constantChange target source op n] (rest.map (constantChange target source op)) =
        [constantChange target source op (rest.foldl (mergeNumbers op) n)] := by
    intro rest
    induction rest with
    | nil => exact fun n => rfl
    | cons m rest ih =>
        intro n
        rw [List.foldl_cons, ← ih]
        exact congrArg (mergeAll · _) (push_constantChange target source op n m)
  cases numbers with
  | nil => rfl
  | cons n rest => exact later rest n

end

/-- Constants at a place where no rule is leave one rule with their total there, or none if there are
no constants. -/
theorem rulesAt_defineAll_of_constants {g : RuleGraph} (h : g.Consistent) {rules : List Rule}
    {changes : List PendingDelta} {target source : String} {op : Operator} {numbers : List Number}
    (fresh : g.rulesAt target source op = []) (others : ∀ r ∈ rules, r.isAt target source op = false)
    (constants : changes.filter (·.isAt target source op) =
      numbers.map (constantChange target source op)) :
    (g.defineAll (rules ++ (mergeAll [] changes).map PendingDelta.rule)).rulesAt target source op =
      (total? op numbers).toList.map (constantRule target source op) := by
  have none : rules.filter (·.isAt target source op) = [] :=
    List.filter_eq_nil_iff.mpr fun r member => Bool.eq_false_iff.mp (others r member)
  have merged : ((mergeAll [] changes).map PendingDelta.rule).filter (·.isAt target source op) =
      (total? op numbers).toList.map (constantRule target source op) := by
    have places : (fun r : Rule => r.isAt target source op) ∘ PendingDelta.rule =
        fun d => d.isAt target source op := rfl
    rw [List.filter_map, places, filter_mergeAll, constants, List.filter_nil,
      mergeAll_constantChanges, List.map_map]
    rfl
  rw [h.rulesAt_defineAll, List.filter_append, none, merged, fresh]
  cases total? op numbers <;> rfl

end Note
end CharacterRules
