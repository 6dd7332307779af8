import CharacterRules.Proofs.Rule.Reordering

/-!
The bookkeeping of a rule graph. The index, the rules and the order at hand are changed by different
calls, in any sequence; behind each of them the graph still is the one that its rules alone make. No
call but the registration of a rule changes an order of evaluation or a snapshot.
-/

namespace CharacterRules

namespace Expr

mutual

theorem equals_symm : ∀ (a : Expr) {b : Expr}, a.equals b = true → b.equals a = true
  | .literal v, b, h => by
      cases b with
      | literal w => exact Value.beq_symm h
      | _ => cases h
  | .ident name, b, h => by
      cases b with
      | ident other => exact beq_iff_eq.mpr (beq_iff_eq.mp h).symm
      | _ => cases h
  | .index key, b, h => by
      cases b with
      | index other => exact beq_iff_eq.mpr (beq_iff_eq.mp h).symm
      | _ => cases h
  | .unary f e, b, h => by
      cases b with
      | unary g d =>
          simp only [equals, Bool.and_eq_true, beq_iff_eq] at h ⊢
          exact ⟨h.1.symm, equals_symm e h.2⟩
      | _ => cases h
  | .binary f l r, b, h => by
      cases b with
      | binary g l' r' =>
          simp only [equals, Bool.and_eq_true, beq_iff_eq] at h ⊢
          exact ⟨⟨h.1.1.symm, equals_symm l h.1.2⟩, equals_symm r h.2⟩
      | _ => cases h
  | .call f es, b, h => by
      cases b with
      | call g ds =>
          simp only [equals, Bool.and_eq_true, beq_iff_eq] at h ⊢
          exact ⟨h.1.symm, equalsAll_symm es h.2⟩
      | _ => cases h
  | .conditional c t e, b, h => by
      cases b with
      | conditional c' t' e' =>
          simp only [equals, Bool.and_eq_true] at h ⊢
          exact ⟨⟨equals_symm c h.1.1, equals_symm t h.1.2⟩, equals_symm e h.2⟩
      | _ => cases h

theorem equalsAll_symm : ∀ (es : List Expr) {ds : List Expr},
    equalsAll es ds = true → equalsAll ds es = true
  | [], ds, h => by
      cases ds with
      | nil => rfl
      | cons d rest => cases h
  | e :: es, ds, h => by
      cases ds with
      | nil => cases h
      | cons d rest =>
          simp only [equalsAll, Bool.and_eq_true] at h ⊢
          exact ⟨equals_symm e h.1, equalsAll_symm es h.2⟩

end

end Expr

theorem Prerequisite.beq_symm {p q : Prerequisite} (h : (p == q) = true) : (q == p) = true := by
  have clauses : (p.clauses == q.clauses) = true := h
  rw [beq_iff_forall₂] at clauses
  exact beq_iff_forall₂.mpr (clauses.imp fun _ _ => Clause.beq_symm).flip

theorem Formula.beq_symm {f f' : Formula} (h : (f == f') = true) : (f' == f) = true := by
  cases f with
  | passThrough =>
      cases f' with
      | passThrough => rfl
      | _ => cases h
  | literal v =>
      cases f' with
      | literal w => exact Value.beq_symm h
      | _ => cases h
  | expr e =>
      cases f' with
      | expr d => exact Expr.equals_symm e h
      | _ => cases h
  | unmet p =>
      cases f' with
      | unmet q => exact Prerequisite.beq_symm h
      | _ => cases h

theorem Rule.beq_symm {r s : Rule} (h : (r == s) = true) : (s == r) = true := by
  obtain ⟨target, source, op, formula⟩ := Rule.beq_iff.mp h
  exact Rule.beq_iff.mpr ⟨target.symm, source.symm, op.symm, Formula.beq_symm formula⟩

namespace RuleGraph

/-- A call on a graph: a registration or question, or the evaluation of a selection. -/
inductive Call where
  | registration (x : Registration)
  | evaluation (selection : Selection)

/-- The graph after a call. An evaluation asks for the order and leaves it at hand. -/
def Call.apply (g : RuleGraph) : Call → RuleGraph
  | .registration x => x.apply g
  | .evaluation _ => g.withOrder

/-- The graph that a sequence of calls makes of the empty one. -/
def ofCalls (calls : List Call) : RuleGraph := calls.foldl Call.apply {}

theorem built_ofCalls (calls : List Call) : (ofCalls calls).Built := by
  refine List.foldlRecOn calls Call.apply built_empty fun g built x _ => ?_
  cases x with
  | registration x => exact built.apply x
  | evaluation selection => exact built.apply .order

/-- Whether no rule equals one that was registered before it. -/
def Apart (g : RuleGraph) : Prop :=
  g.rules.toList.Pairwise fun earlier later => (later == earlier) = false

theorem Apart.define {g : RuleGraph} (apart : g.Apart) (consistent : g.Consistent) (r : Rule) :
    (g.define r).Apart := by
  rw [Apart, rules_define]
  cases fresh : g.hasRule r with
  | true => exact apart
  | false =>
      refine List.pairwise_append.mpr ⟨apart, List.pairwise_singleton .., fun s known t new => ?_⟩
      obtain rfl := List.mem_singleton.mp new
      by_contra equal
      have same := Rule.beq_symm (Bool.not_eq_false _ ▸ equal)
      have found := consistent.hasRule_iff.mpr ⟨s, known, (Rule.beq_iff.mp same).1, same⟩
      rw [fresh] at found
      cases found

theorem Apart.defineAll {g : RuleGraph} (apart : g.Apart) (consistent : g.Consistent)
    (rules : List Rule) : (g.defineAll rules).Apart := by
  induction rules generalizing g with
  | nil => exact apart
  | cons r rest ih => exact ih (apart.define consistent r) (consistent.define r)

theorem Apart.apply {g : RuleGraph} (apart : g.Apart) (consistent : g.Consistent)
    (x : Registration) : (x.apply g).Apart := by
  cases x with
  | rule r => exact apart.define consistent r
  | fact key gate p => exact apart.defineAll consistent (factRules key gate p)
  | note key text | requirement key p | order => exact apart

theorem Built.apart {g : RuleGraph} (h : g.Built) : g.Apart := by
  obtain ⟨history, rfl⟩ := h
  induction history using List.reverseRecOn with
  | nil => exact List.Pairwise.nil
  | append_singleton history x ih =>
      rw [ofHistory_concat]
      exact ih.apply (Built.consistent ⟨history, rfl⟩) x

/-- The graph on which the rules of a graph are registered, and nothing else is done. -/
def rebuilt (g : RuleGraph) : RuleGraph := defineAll {} g.rules.toList

section

variable {g : RuleGraph} (built : g.Built)

include built

theorem Built.rulesFor_rebuilt (target : String) : g.rebuilt.rulesFor target = g.rulesFor target := by
  have apart : (onto target g.rules.toList).Pairwise fun r s => (r == s) = false :=
    (built.apart.imp fun differ => by
      refine Bool.eq_false_iff.mpr fun equal => ?_
      rw [Rule.beq_symm equal] at differ
      cases differ).filter _
  rw [rebuilt, consistent_empty.rulesFor_defineAll, built.consistent.rulesFor_eq]
  exact @foldl_register_of_pairwise [] _ apart

theorem Built.evaluationOrder_rebuilt : g.rebuilt.evaluationOrder = g.evaluationOrder :=
  built.consistent.evaluationOrder_eq_of_perm (consistent_empty.defineAll _) fun target => by
    rw [built.rulesFor_rebuilt target]

theorem Built.evaluate_rebuilt (selection : Selection) :
    g.rebuilt.evaluate selection = g.evaluate selection := by
  have same : ∀ target, g.SameRules g.rebuilt selection target :=
    fun target => .inl (built.rulesFor_rebuilt target)
  show evaluateOrder _ selection _ = evaluateOrder _ selection _
  rw [built.evaluationOrder_rebuilt]
  exact SameRules.evaluateOrder_eq built.consistent (consistent_empty.defineAll _) same
    (List.append_nil _).symm

theorem Built.positions_eq_none_iff {target : String} :
    g.positions[target]? = none ↔ ∀ r ∈ g.rules.toList, r.target ≠ target := by
  have written : g.hasTarget target = true ↔ ∃ r ∈ g.rules.toList, r.target = target :=
    built.consistent.hasTarget_iff
  rw [hasTarget, Std.TreeMap.contains_eq_isSome_getElem?, Option.isSome_iff_ne_none] at written
  rw [← not_iff_not]
  push Not
  exact written

theorem Built.toList_of_positions {target : String} {positions : Array Nat}
    (found : g.positions[target]? = some positions) : positions.toList = g.positionsOf target := by
  rw [← built.consistent.getD_positions, Std.TreeMap.getD_eq_getD_getElem?, found]
  rfl

end

theorem ascending_positionsOf (g : RuleGraph) (target : String) :
    (g.positionsOf target).Pairwise (· < ·) := List.pairwise_lt_range.filter _

/-- After every sequence of calls, the index lists for each target that is written, and for no other
key, the places of the rules onto it in ascending order; no rule equals an earlier one; an order at hand
is the one that the rules give; and neither notes nor requirements change an order or a snapshot. -/
theorem bookkeeping_ofCalls (calls : List Call) :
    let g := ofCalls calls
    (∀ target, g.positions[target]? = none ↔ ∀ r ∈ g.rules.toList, r.target ≠ target) ∧
    (∀ (target : String) (positions : Array Nat), g.positions[target]? = some positions →
      positions.toList.Pairwise (· < ·) ∧
      ∀ i, i ∈ positions ↔ ∃ r, g.rules[i]? = some r ∧ r.target = target) ∧
    g.rules.toList.Pairwise (fun earlier later => (later == earlier) = false) ∧
    (∀ order, g.order = some order → order = g.rebuilt.computeOrder) ∧
    (g.evaluationOrder = g.rebuilt.computeOrder ∧
      ∀ selection, g.evaluate selection = g.rebuilt.evaluate selection) ∧
    (∀ key text, (g.defineNote key text).evaluationOrder = g.evaluationOrder ∧
      ∀ selection, (g.defineNote key text).evaluate selection = g.evaluate selection) ∧
    ∀ fact p, (g.defineRequirement fact p).evaluationOrder = g.evaluationOrder ∧
      ∀ selection, (g.defineRequirement fact p).evaluate selection = g.evaluate selection := by
  intro g
  have built : g.Built := built_ofCalls calls
  have rebuilt : g.rebuilt.Consistent := consistent_empty.defineAll g.rules.toList
  have recomputed : g.evaluationOrder = g.rebuilt.computeOrder := by
    rw [← rebuilt.evaluationOrder_eq, built.evaluationOrder_rebuilt]
  refine ⟨fun target => built.positions_eq_none_iff, fun target positions found => ⟨?_, fun i => ?_⟩,
    built.apart, fun order held => ?_, ⟨recomputed, fun selection => ?_⟩, ?_, ?_⟩
  · rw [built.toList_of_positions found]
    exact g.ascending_positionsOf target
  · rw [← Array.mem_toList_iff, built.toList_of_positions found, mem_positionsOf]
  · rw [← recomputed, evaluationOrder, held]
    rfl
  · exact (built.evaluate_rebuilt selection).symm
  · exact fun key text => ⟨rfl, fun selection => rfl⟩
  · exact fun fact p => ⟨rfl, fun selection => rfl⟩

end RuleGraph
end CharacterRules
