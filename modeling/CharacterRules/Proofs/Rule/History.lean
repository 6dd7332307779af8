import CharacterRules.Rule.Order
import Mathlib.Data.List.Induction

/-!
Histories of a rule graph. A graph is what a sequence of calls makes of the empty one, and every
call keeps its parts in step: the index lists exactly the positions of the rules onto each target,
and an order at hand is the one that the rules have now.
-/

namespace CharacterRules

/-- A call that registers something with a graph, or asks for its order of evaluation. -/
inductive Registration where
  | rule (r : Rule)
  | note (key text : String)
  | requirement (key : String) (p : Prerequisite)
  | fact (key gate : String) (p : Prerequisite)
  | order

/-- The graph after a call. -/
def Registration.apply (g : RuleGraph) : Registration → RuleGraph
  | .rule r => g.define r
  | .note key text => g.defineNote key text
  | .requirement key p => g.defineRequirement key p
  | .fact key gate p => g.defineFact key gate p
  | .order => g.withOrder

namespace RuleGraph

/-- The graph that a sequence of calls makes of the empty one. -/
def ofHistory (history : List Registration) : RuleGraph := history.foldl Registration.apply {}

/-- Whether some sequence of calls leads to a graph. -/
def Built (g : RuleGraph) : Prop := ∃ history, ofHistory history = g

theorem ofHistory_concat (history : List Registration) (x : Registration) :
    ofHistory (history ++ [x]) = x.apply (ofHistory history) := by
  simp only [ofHistory, List.foldl_append, List.foldl_cons, List.foldl_nil]

theorem built_empty : Built {} := ⟨[], rfl⟩

theorem Built.apply {g : RuleGraph} (h : g.Built) (x : Registration) : (x.apply g).Built := by
  obtain ⟨history, rfl⟩ := h
  exact ⟨history ++ [x], ofHistory_concat history x⟩

theorem Built.define {g : RuleGraph} (h : g.Built) (r : Rule) : (g.define r).Built :=
  h.apply (.rule r)

theorem Built.defineAll {g : RuleGraph} (h : g.Built) (rules : List Rule) :
    (g.defineAll rules).Built := by
  induction rules generalizing g with
  | nil => exact h
  | cons r rest ih => exact ih (h.define r)

/-- The positions of the rules onto a target, ascending. -/
def positionsOf (g : RuleGraph) (target : String) : List Nat :=
  (List.range g.rules.size).filter fun i => g.rules[i]?.any (·.target == target)

theorem mem_positionsOf {g : RuleGraph} {target : String} {i : Nat} :
    i ∈ g.positionsOf target ↔ ∃ r, g.rules[i]? = some r ∧ r.target = target := by
  simp only [positionsOf, List.mem_filter, List.mem_range, Option.any_eq_true, beq_iff_eq]
  refine and_iff_right_of_imp ?_
  rintro ⟨r, hr, -⟩
  exact (Array.getElem?_eq_some_iff.mp hr).1

/-- The parts of a graph agree: the index lists the rules onto each target, and the order at hand,
if there is one, is that of the rules. -/
structure Consistent (g : RuleGraph) : Prop where
  index : ∀ target, g.positions[target]? =
    if g.positionsOf target = [] then none else some (g.positionsOf target).toArray
  order : ∀ order, g.order = some order → order = g.computeOrder

theorem filterMap_getElem?_range (rules : Array Rule) :
    (List.range rules.size).filterMap (fun i => rules[i]?) = rules.toList := by
  have whole : ∀ l : List Rule, (List.range l.length).filterMap (fun i => l[i]?) = l := by
    intro l
    induction l with
    | nil => rfl
    | cons r rest ih =>
        rw [List.length_cons, List.range_succ_eq_map, List.filterMap_cons, List.filterMap_map]
        exact congrArg (r :: ·) ih
  simpa using whole rules.toList

namespace Consistent

variable {g : RuleGraph} (h : g.Consistent)

include h

theorem getD_positions (target : String) :
    (g.positions.getD target #[]).toList = g.positionsOf target := by
  rw [Std.TreeMap.getD_eq_getD_getElem?, h.index target]
  split
  · rename_i none
    rw [none]
    rfl
  · rfl

/-- The index finds the rules onto a target in the order of their registration. -/
theorem rulesFor_eq (target : String) :
    g.rulesFor target = g.rules.toList.filter fun r => r.target == target := by
  rw [rulesFor, h.getD_positions, positionsOf, List.filterMap_filter,
    ← filterMap_getElem?_range g.rules, List.filter_filterMap]
  congr 1
  funext i
  cases g.rules[i]? with
  | none => rfl
  | some r => cases hr : r.target == target <;> simp [hr, Option.filter]

theorem mem_rulesFor {target : String} {r : Rule} :
    r ∈ g.rulesFor target ↔ r ∈ g.rules.toList ∧ r.target = target := by
  rw [h.rulesFor_eq, List.mem_filter, beq_iff_eq]

theorem hasTarget_iff {target : String} :
    g.hasTarget target = true ↔ ∃ r ∈ g.rules.toList, r.target = target := by
  rw [hasTarget, Std.TreeMap.contains_eq_isSome_getElem?, h.index target]
  constructor
  · intro some
    split at some
    · exact absurd some (by simp)
    · rename_i nonempty
      obtain ⟨i, hi⟩ := List.exists_mem_of_ne_nil _ nonempty
      obtain ⟨r, hr, ht⟩ := mem_positionsOf.mp hi
      exact ⟨r, Array.mem_toList_iff.mpr (Array.mem_of_getElem? hr), ht⟩
  · rintro ⟨r, hr, ht⟩
    obtain ⟨i, hi⟩ := List.getElem?_of_mem hr
    have member : i ∈ g.positionsOf target := mem_positionsOf.mpr ⟨r, by simpa using hi, ht⟩
    rw [if_neg (List.ne_nil_of_mem member)]
    rfl

theorem rulesFor_eq_nil {key : String} (unwritten : g.hasTarget key = false) :
    g.rulesFor key = [] := by
  rw [List.eq_nil_iff_forall_not_mem]
  intro r hr
  have written := h.hasTarget_iff.mpr ⟨r, h.mem_rulesFor.mp hr⟩
  rw [unwritten] at written
  cases written

theorem hasTarget_eq_false {key : String} (none : g.rulesFor key = []) :
    g.hasTarget key = false := by
  rw [Bool.eq_false_iff]
  intro written
  obtain ⟨r, registered⟩ := h.hasTarget_iff.mp written
  exact List.ne_nil_of_mem (h.mem_rulesFor.mpr registered) none

theorem evaluationOrder_eq : g.evaluationOrder = g.computeOrder := by
  rw [evaluationOrder]
  cases ho : g.order with
  | none => rfl
  | some order => exact h.order order ho

theorem hasRule_iff {r : Rule} :
    g.hasRule r = true ↔ ∃ s ∈ g.rules.toList, s.target = r.target ∧ (s == r) = true := by
  simp only [hasRule, List.any_eq_true, h.mem_rulesFor, and_assoc]

end Consistent

theorem positionsOf_define {g : RuleGraph} {r : Rule} (fresh : g.hasRule r = false)
    (target : String) : (g.define r).positionsOf target =
      g.positionsOf target ++ if r.target = target then [g.rules.size] else [] := by
  simp only [positionsOf, define, fresh, Bool.false_eq_true, if_false, Array.size_push,
    List.range_succ, List.filter_append]
  congr 1
  · refine List.filter_congr fun i hi => ?_
    rw [Array.getElem?_push_lt (List.mem_range.mp hi),
      Array.getElem?_eq_getElem (List.mem_range.mp hi)]
  · by_cases ht : r.target = target <;> simp [ht]

theorem consistent_empty : Consistent {} := by
  refine ⟨fun target => ?_, nofun⟩
  simp [positionsOf]

theorem Consistent.define {g : RuleGraph} (h : g.Consistent) (r : Rule) :
    (g.define r).Consistent := by
  cases fresh : g.hasRule r with
  | true => simpa only [RuleGraph.define, fresh, if_true] using h
  | false =>
      constructor
      · intro target
        rw [positionsOf_define fresh]
        simp only [RuleGraph.define, fresh, Bool.false_eq_true, if_false,
          Std.TreeMap.getElem?_insert, Std.LawfulEqCmp.compare_eq_iff_eq]
        by_cases ht : r.target = target
        · have pushed : (g.positions.getD r.target #[]).toList = g.positionsOf target := by
            rw [h.getD_positions, ht]
          simp [ht, ← pushed, ← Array.toList_push]
        · simpa [ht] using h.index target
      · intro order ho
        simp only [RuleGraph.define, fresh, Bool.false_eq_true, if_false] at ho
        cases ho

theorem Consistent.defineAll {g : RuleGraph} (h : g.Consistent) (rules : List Rule) :
    (g.defineAll rules).Consistent := by
  induction rules generalizing g with
  | nil => exact h
  | cons r rest ih => exact ih (h.define r)

theorem Consistent.apply {g : RuleGraph} (h : g.Consistent) (x : Registration) :
    (x.apply g).Consistent := by
  cases x with
  | rule r => exact h.define r
  | note key text => exact ⟨h.index, h.order⟩
  | requirement key p => exact ⟨h.index, h.order⟩
  | fact key gate p =>
      have rules := h.defineAll (factRules key gate p)
      exact ⟨rules.index, rules.order⟩
  | order =>
      refine ⟨h.index, fun order ho => ?_⟩
      cases ho
      exact h.evaluationOrder_eq

/-- Every sequence of calls keeps the index and the order in step with the rules. -/
theorem Built.consistent {g : RuleGraph} (h : g.Built) : g.Consistent := by
  obtain ⟨history, rfl⟩ := h
  induction history using List.reverseRecOn with
  | nil => exact consistent_empty
  | append_singleton history x ih =>
      rw [ofHistory_concat]
      exact ih.apply x

theorem rules_define (g : RuleGraph) (r : Rule) : (g.define r).rules.toList =
    if g.hasRule r then g.rules.toList else g.rules.toList ++ [r] := by
  rw [define]
  split <;> simp

@[simp] theorem requirements_define (g : RuleGraph) (r : Rule) :
    (g.define r).requirements = g.requirements := by
  rw [define]
  split <;> rfl

@[simp] theorem requirements_defineAll (g : RuleGraph) (rules : List Rule) :
    (g.defineAll rules).requirements = g.requirements := by
  induction rules generalizing g with
  | nil => rfl
  | cons r rest ih => exact (ih (g.define r)).trans (g.requirements_define r)

@[simp] theorem notes_define (g : RuleGraph) (r : Rule) : (g.define r).notes = g.notes := by
  rw [define]
  split <;> rfl

@[simp] theorem notes_defineAll (g : RuleGraph) (rules : List Rule) :
    (g.defineAll rules).notes = g.notes := by
  induction rules generalizing g with
  | nil => rfl
  | cons r rest ih => exact (ih (g.define r)).trans (g.notes_define r)

/-- A new rule comes last among those onto its target, and changes no other target. -/
theorem Consistent.rulesFor_define {g : RuleGraph} (h : g.Consistent) (r : Rule)
    (target : String) : (g.define r).rulesFor target =
      if r.target = target ∧ g.hasRule r = false then g.rulesFor target ++ [r]
      else g.rulesFor target := by
  rw [(h.define r).rulesFor_eq, h.rulesFor_eq, rules_define]
  cases fresh : g.hasRule r with
  | true => simp
  | false => by_cases ht : r.target = target <;> simp [ht]

theorem Consistent.rulesFor_defineAll_of_ne {g : RuleGraph} (h : g.Consistent) {rules : List Rule}
    {target : String} (others : ∀ r ∈ rules, r.target ≠ target) :
    (g.defineAll rules).rulesFor target = g.rulesFor target := by
  induction rules generalizing g with
  | nil => rfl
  | cons r rest ih =>
      have later := ih (h.define r) fun s hs => others s (List.mem_cons_of_mem r hs)
      have now := h.rulesFor_define r target
      rw [if_neg fun same => others r List.mem_cons_self same.1] at now
      exact later.trans now

theorem Consistent.exists_rulesFor_defineAll_eq {g : RuleGraph} (h : g.Consistent)
    (rules : List Rule) (target : String) :
    ∃ new, (g.defineAll rules).rulesFor target = g.rulesFor target ++ new := by
  induction rules generalizing g with
  | nil => exact ⟨[], (List.append_nil _).symm⟩
  | cons r rest ih =>
      obtain ⟨new, later⟩ := ih (h.define r)
      have now := h.rulesFor_define r target
      split at now
      · exact ⟨r :: new, later.trans (by rw [now, List.append_assoc]; rfl)⟩
      · exact ⟨new, later.trans (by rw [now])⟩

namespace Consistent

variable {g : RuleGraph} (h : g.Consistent) {target : String}

include h

theorem mem_rulesFor_define {r s : Rule} : s ∈ (g.define r).rulesFor target ↔
    s ∈ g.rulesFor target ∨ (s = r ∧ r.target = target ∧ g.hasRule r = false) := by
  rw [h.rulesFor_define]
  split
  · rename_i new
    rw [List.mem_append, List.mem_singleton, and_iff_left new]
  · rename_i known
    exact (or_iff_left fun new => known new.2).symm

theorem mem_rulesFor_defineAll_of_mem {s : Rule} (known : s ∈ g.rulesFor target)
    (rules : List Rule) : s ∈ (g.defineAll rules).rulesFor target := by
  obtain ⟨new, added⟩ := h.exists_rulesFor_defineAll_eq rules target
  rw [added]
  exact List.mem_append_left new known

theorem of_mem_rulesFor_defineAll {rules : List Rule} {s : Rule}
    (member : s ∈ (g.defineAll rules).rulesFor target) : s ∈ g.rulesFor target ∨ s ∈ rules := by
  induction rules generalizing g with
  | nil => exact .inl member
  | cons r rest ih =>
      cases ih (h.define r) member with
      | inl now =>
          rcases h.mem_rulesFor_define.mp now with known | ⟨rfl, -, -⟩
          · exact .inl known
          · exact .inr List.mem_cons_self
      | inr later => exact .inr (List.mem_cons_of_mem r later)

/-- After a registration the rule is there, or one that equals it. -/
theorem exists_mem_rulesFor_define (r : Rule) :
    ∃ s ∈ (g.define r).rulesFor r.target, s = r ∨ (s == r) = true := by
  cases fresh : g.hasRule r with
  | true =>
      obtain ⟨s, registered, target, equal⟩ := h.hasRule_iff.mp fresh
      have known := h.mem_rulesFor.mpr ⟨registered, target⟩
      exact ⟨s, h.mem_rulesFor_define.mpr (.inl known), .inr equal⟩
  | false => exact ⟨r, h.mem_rulesFor_define.mpr (.inr ⟨rfl, rfl, fresh⟩), .inl rfl⟩

theorem exists_mem_rulesFor_defineAll {rules : List Rule} {r : Rule} (given : r ∈ rules)
    (onto : r.target = target) :
    ∃ s ∈ (g.defineAll rules).rulesFor target, s = r ∨ (s == r) = true := by
  induction rules generalizing g with
  | nil => cases given
  | cons first rest ih =>
      cases List.mem_cons.mp given with
      | inl eq =>
          obtain rfl := eq
          obtain ⟨s, member, same⟩ := h.exists_mem_rulesFor_define r
          exact ⟨s, (h.define r).mem_rulesFor_defineAll_of_mem (onto ▸ member) rest, same⟩
      | inr later => exact ih (h.define first) later

end Consistent
end RuleGraph
end CharacterRules
