import CharacterRules.Proofs.Prerequisite.Equality
import CharacterRules.Proofs.Rule.Order
import CharacterRules.Proofs.Rule.Summand
import Mathlib.Data.List.Sort

/-!
Orders of registration. What is computed depends, for each target, on the rules onto it and on their
order among themselves, and on nothing else of the order in which rules were registered. For a target
that adds up integers, the order among its own rules does not count either.
-/

namespace CharacterRules.RuleGraph

/-- The rules onto a target among some rules. -/
def onto (target : String) (rules : List Rule) : List Rule := rules.filter (·.target == target)

/-- Known rules and one more, unless an equal one is known. -/
def register (known : List Rule) (r : Rule) : List Rule :=
  if known.any (· == r) then known else known ++ [r]

/-- What is registered for a target is settled by the rules onto it. -/
theorem Consistent.rulesFor_defineAll {g : RuleGraph} (h : g.Consistent) (rules : List Rule)
    (target : String) : (g.defineAll rules).rulesFor target =
      (onto target rules).foldl register (g.rulesFor target) := by
  induction rules generalizing g with
  | nil => rfl
  | cons r rest ih =>
      have later : (g.defineAll (r :: rest)).rulesFor target =
          (onto target rest).foldl register ((g.define r).rulesFor target) := ih (h.define r)
      rw [later, h.rulesFor_define, onto, onto]
      by_cases own : r.target = target
      · subst own
        rw [List.filter_cons_of_pos (by simp), List.foldl_cons, register, ← hasRule]
        cases g.hasRule r <;> simp
      · rw [List.filter_cons_of_neg (by simpa using own), if_neg fun both => own both.1]

/-- Rules that are all apart are all registered. -/
theorem foldl_register_of_pairwise {known rules : List Rule}
    (apart : (known ++ rules).Pairwise fun r s => (r == s) = false) :
    rules.foldl register known = known ++ rules := by
  induction rules generalizing known with
  | nil => exact (List.append_nil known).symm
  | cons r rest ih =>
      have new : known.any (· == r) = false := by
        rw [List.any_eq_false]
        intro s member
        rw [(List.pairwise_append.mp apart).2.2 s member r List.mem_cons_self]
        exact Bool.false_ne_true
      rw [List.append_cons] at apart
      have added : register known r = known ++ [r] := by
        rw [register, new]
        rfl
      rw [List.foldl_cons, added, ih apart, ← List.append_cons]

theorem foldl_register_ne_nil (known : List Rule) {rules : List Rule} (h : rules ≠ []) :
    rules.foldl register known ≠ [] := by
  obtain ⟨front, last, rfl⟩ := (List.eq_nil_or_concat' rules).resolve_left h
  rw [List.foldl_append]
  show register _ last ≠ []
  rw [register]
  split
  · rename_i equal
    obtain ⟨s, member, -⟩ := List.any_eq_true.mp equal
    exact List.ne_nil_of_mem member
  · exact List.append_ne_nil_of_right_ne_nil _ (List.cons_ne_nil last [])

theorem filter_register {p : Rule → Bool} (congr : ∀ {r s}, (r == s) = true → p r = p s)
    (known : List Rule) (r : Rule) : (register known r).filter p =
      if p r then register (known.filter p) r else known.filter p := by
  have equal : p r = true → (known.filter p).any (· == r) = known.any (· == r) := by
    intro accepted
    rw [Bool.eq_iff_iff, List.any_eq_true, List.any_eq_true]
    constructor
    · rintro ⟨s, member, same⟩
      exact ⟨s, (List.mem_filter.mp member).1, same⟩
    · rintro ⟨s, member, same⟩
      exact ⟨s, List.mem_filter.mpr ⟨member, (congr same).trans accepted⟩, same⟩
  by_cases accepted : p r = true
  · rw [if_pos accepted, register, register, equal accepted]
    split
    · rfl
    · rw [List.filter_append, List.filter_cons_of_pos accepted, List.filter_nil]
  · rw [if_neg accepted, register]
    split
    · rfl
    · rw [List.filter_append, List.filter_cons_of_neg accepted, List.filter_nil, List.append_nil]

/-- What is registered of a kind of rules depends on the rules of that kind alone. -/
theorem filter_foldl_register {p : Rule → Bool} (congr : ∀ {r s}, (r == s) = true → p r = p s)
    (known rules : List Rule) : (rules.foldl register known).filter p =
      (rules.filter p).foldl register (known.filter p) := by
  induction rules generalizing known with
  | nil => rfl
  | cons r rest ih =>
      rw [List.foldl_cons, ih, filter_register congr, List.filter_cons]
      split <;> rfl

/-- Among rules that are given for keys that are all different, those onto one key are the ones given
for it. -/
theorem onto_flatMap_of_nodup {α : Type} {key : α → String} (rules : α → List Rule)
    (own : ∀ a, ∀ r ∈ rules a, r.target = key a) {all : List α} (distinct : (all.map key).Nodup)
    {a : α} (member : a ∈ all) : onto (key a) (all.flatMap rules) = rules a := by
  have self : ∀ b, onto (key b) (rules b) = rules b := fun b =>
    List.filter_eq_self.mpr fun r given => beq_iff_eq.mpr (own b r given)
  have other : ∀ {b c}, key b ≠ key c → onto (key b) (rules c) = [] := fun differs =>
    List.filter_eq_nil_iff.mpr fun r given same =>
      differs ((beq_iff_eq.mp same).symm.trans (own _ r given))
  have all_other : ∀ {rest : List α}, (∀ c ∈ rest, key a ≠ key c) →
      onto (key a) (rest.flatMap rules) = [] := by
    intro rest differ
    rw [onto, List.filter_flatMap, List.flatMap_eq_nil_iff]
    exact fun c behind => other (differ c behind)
  induction all with
  | nil => cases member
  | cons b rest ih =>
      rw [List.map_cons, List.nodup_cons] at distinct
      rw [List.flatMap_cons, onto, List.filter_append]
      cases List.mem_cons.mp member with
      | inl first =>
          obtain rfl := first
          have behind := all_other fun c later same =>
            distinct.1 (same ▸ List.mem_map_of_mem later)
          rw [onto] at behind
          rw [behind, List.append_nil]
          exact self a
      | inr later =>
          have front : onto (key a) (rules b) = [] := other fun same =>
            distinct.1 (same ▸ List.mem_map_of_mem later)
          rw [onto] at front
          rw [front, List.nil_append]
          exact ih distinct.2 later

theorem register_perm {known known' : List Rule} (perm : known'.Perm known) (r : Rule) :
    (register known' r).Perm (register known r) := by
  rw [register, register, perm.any_eq]
  split
  · exact perm
  · exact perm.append_right [r]

theorem foldl_register_perm {known known' : List Rule} (perm : known'.Perm known)
    (rules : List Rule) : (rules.foldl register known').Perm (rules.foldl register known) := by
  induction rules generalizing known known' with
  | nil => exact perm
  | cons r rest ih => exact ih (register_perm perm r)

/-- Rules that are not equal may be registered in either order. -/
theorem register_comm {r s : Rule} (apart : (r == s) = false) (apart' : (s == r) = false)
    (known : List Rule) :
    (register (register known r) s).Perm (register (register known s) r) := by
  have later : ∀ {a b : Rule}, (a == b) = false →
      (register known a).any (· == b) = known.any (· == b) := by
    intro a b apart
    rw [register]
    split <;> simp [apart]
  rw [register, later apart, register.eq_1 (register known s), later apart', register, register]
  split <;> split <;> try exact .refl _
  simpa using .append_left known (.swap s r [])

/-- Rules that are given in another order are registered in another order, provided that rules which
equal each other are the same. -/
theorem foldl_register_perm_of_perm {rules rules' : List Rule} (perm : rules'.Perm rules)
    (same : ∀ r ∈ rules, ∀ s ∈ rules, (r == s) = true → r = s) (known : List Rule) :
    (rules'.foldl register known).Perm (rules.foldl register known) := by
  induction perm generalizing known with
  | nil => exact .refl known
  | cons r _ ih =>
      exact ih (fun a ha b hb => same a (.tail r ha) b (.tail r hb)) (register known r)
  | swap r s rest =>
      refine foldl_register_perm ?_ rest
      by_cases equal : r = s
      · rw [equal]
      · have apart := mt (same r (by simp) s (by simp)) equal
        have apart' := mt (same s (by simp) r (by simp)) (Ne.symm equal)
        exact register_comm (by simpa using apart') (by simpa using apart) known
  | trans first _ ih ih' =>
      rename_i second
      have same' := fun a ha b hb => same a (second.mem_iff.mp ha) b (second.mem_iff.mp hb)
      exact (ih same' known).trans (ih' same known)

section

variable {g g' : RuleGraph} (h : g.Consistent) (h' : g'.Consistent)
  (perm : ∀ target, (g'.rulesFor target).Perm (g.rulesFor target))

include h h' perm

theorem Consistent.hasTarget_eq_of_perm (target : String) :
    g'.hasTarget target = g.hasTarget target := by
  rw [Bool.eq_iff_iff, h.hasTarget_iff, h'.hasTarget_iff]
  simp only [← h.mem_rulesFor, ← h'.mem_rulesFor, (perm target).mem_iff]

theorem Consistent.targets_eq_of_perm : g'.targets = g.targets := by
  refine g'.sorted_targets.eq_of_mem_iff g.sorted_targets fun target => ?_
  rw [mem_targets, mem_targets, h.hasTarget_eq_of_perm h' perm]

theorem Consistent.dependencies_eq_of_perm (target : String) :
    g'.dependencies target = g.dependencies target := by
  have ordered : ∀ keys : Std.TreeSet String, keys.toList.Pairwise (· < ·) := fun keys =>
    keys.ordered_toList.imp compareOfLessAndEq_eq_lt.mp
  have sorted : ∀ g : RuleGraph, (g.dependencies target).Pairwise (· < ·) := fun _ =>
    (ordered _).filter _
  refine (sorted g').eq_of_mem_iff (sorted g) fun key => ?_
  simp only [mem_dependencies, WaitsFor, DependsOn, Reads, (perm target).mem_iff,
    h.hasTarget_eq_of_perm h' perm]

/-- The order of evaluation does not depend on the order of the rules onto a target. -/
theorem Consistent.evaluationOrder_eq_of_perm : g'.evaluationOrder = g.evaluationOrder := by
  have pending : (fun t => (t, g'.dependencies t)) = fun t => (t, g.dependencies t) := by
    funext target
    rw [h.dependencies_eq_of_perm h' perm]
  rw [h.evaluationOrder_eq, h'.evaluationOrder_eq, computeOrder, computeOrder,
    h.targets_eq_of_perm h' perm, pending]

end

theorem Consistent.nodup_evaluationOrder {g : RuleGraph} (h : g.Consistent) :
    g.evaluationOrder.Nodup := by
  rw [h.evaluationOrder_eq]
  exact g.computeOrder_perm.nodup_iff.mpr g.nodup_targets

theorem Consistent.mem_evaluationOrder {g : RuleGraph} (h : g.Consistent) {target : String} :
    target ∈ g.evaluationOrder ↔ g.hasTarget target = true := by
  rw [h.evaluationOrder_eq, g.computeOrder_perm.mem_iff, mem_targets]

section

variable {g : RuleGraph} (h : g.Consistent) {selection : Selection} {target : String}

include h

/-- At the turn of a target, the targets in front of it in the order have been computed. -/
theorem Consistent.sheetBefore_eq {before after : List String}
    (split : g.evaluationOrder = before ++ target :: after) :
    g.sheetBefore selection target = g.evaluateOrder selection before := by
  have distinct := split ▸ h.nodup_evaluationOrder
  have first : ∀ key ∈ before, (key != target) = true := by
    intro key placed
    exact bne_iff_ne.mpr fun same =>
      (List.nodup_append.mp distinct).2.2 key placed target List.mem_cons_self same
  rw [sheetBefore, split, List.takeWhile_append_of_pos first]
  simp

theorem Consistent.evaluateTarget_of_addsUp (adds : g.AddsUp selection target)
    {before after : List String} (split : g.evaluationOrder = before ++ target :: after) :
    g.evaluateTarget target selection (g.evaluateOrder selection before) =
      Value.addAll (g.summands selection target) := by
  rw [evaluateTarget, evaluateRules_of_add adds.adds, summands, h.sheetBefore_eq split]

theorem Consistent.getElem?_evaluate_of_addsUp (adds : g.AddsUp selection target) :
    (g.evaluate selection)[target]? = Value.addAll (g.summands selection target) := by
  have evaluated : g.evaluate selection = g.evaluateOrder selection g.evaluationOrder := rfl
  by_cases placed : target ∈ g.evaluationOrder
  · obtain ⟨before, after, split⟩ := List.append_of_mem placed
    rw [evaluated, ← h.evaluateTarget_of_addsUp adds split, split]
    exact g.getElem?_evaluateOrder_of_nodup selection (split ▸ h.nodup_evaluationOrder)
  · have unwritten : g.hasTarget target = false := by
      simpa [h.mem_evaluationOrder] using placed
    rw [evaluated, g.getElem?_evaluateOrder_of_not_mem selection placed, summands,
      h.rulesFor_eq_nil unwritten]
    cases selection[target]? <;> rfl

end

/-- Whether a target has the same rules in two graphs, in the same order or, if it adds up in both,
in any order. -/
def SameRules (g g' : RuleGraph) (selection : Selection) (target : String) : Prop :=
  g'.rulesFor target = g.rulesFor target ∨
    (g'.rulesFor target).Perm (g.rulesFor target) ∧
      g.AddsUp selection target ∧ g'.AddsUp selection target

namespace SameRules

variable {g g' : RuleGraph} {selection : Selection}

theorem perm {target : String} (same : g.SameRules g' selection target) :
    (g'.rulesFor target).Perm (g.rulesFor target) := by
  rcases same with equal | ⟨perm, -, -⟩
  · rw [equal]
  · exact perm

variable (h : g.Consistent) (h' : g'.Consistent)
  (same : ∀ target, g.SameRules g' selection target)

include h h' same

/-- A target has the same value at its turn in both graphs, if the targets before it have. -/
theorem evaluateTarget_eq {before after : List String} {target : String}
    (split : g.evaluationOrder = before ++ target :: after)
    (sheets : g'.evaluateOrder selection before = g.evaluateOrder selection before) :
    g'.evaluateTarget target selection (g'.evaluateOrder selection before) =
      g.evaluateTarget target selection (g.evaluateOrder selection before) := by
  rcases same target with equal | ⟨perm, adds, adds'⟩
  · rw [sheets, evaluateTarget, evaluateTarget, equal]
  · have split' := (h.evaluationOrder_eq_of_perm h' fun t => (same t).perm).trans split
    have before := (h'.sheetBefore_eq split').trans (sheets.trans (h.sheetBefore_eq split).symm)
    rw [h.evaluateTarget_of_addsUp adds split, h'.evaluateTarget_of_addsUp adds' split']
    refine Value.addAll_eq_of_perm ?_ adds.exact adds'.exact
    rw [summands, summands, before]
    exact (perm.filterMap _).append_left _

theorem evaluateOrder_eq {before after : List String}
    (split : g.evaluationOrder = before ++ after) :
    g'.evaluateOrder selection before = g.evaluateOrder selection before := by
  induction before using List.reverseRecOn generalizing after with
  | nil => rfl
  | append_singleton before target ih =>
      rw [List.append_assoc, List.singleton_append] at split
      have sheets := ih split
      rw [evaluateOrder_concat, evaluateOrder_concat, evaluateTarget_eq h h' same split sheets,
        sheets]

end SameRules

/-- Two orders of registration that keep the order of the rules onto each target, but for targets
that add up integers, lead to the same order of evaluation and to the same attributes. A target that
adds up has no value if there is nothing to add, and the sum otherwise. -/
theorem evaluate_defineAll_eq (rules rules' : List Rule) (selection : Selection)
    (orders : ∀ target, onto target rules' = onto target rules ∨
      ((defineAll {} rules').rulesFor target).Perm ((defineAll {} rules).rulesFor target) ∧
        (defineAll {} rules).AddsUp selection target ∧
          (defineAll {} rules').AddsUp selection target) :
    (defineAll {} rules').evaluationOrder = (defineAll {} rules).evaluationOrder ∧
    (defineAll {} rules').evaluate selection = (defineAll {} rules).evaluate selection ∧
    ∀ target, (defineAll {} rules).AddsUp selection target →
      let summands := (defineAll {} rules).summands selection target
      (summands = [] → ((defineAll {} rules).evaluate selection)[target]? = none) ∧
      (summands ≠ [] → ∃ v, ((defineAll {} rules).evaluate selection)[target]? = some v ∧
        v.integer? = some (Value.total summands)) := by
  have h : (defineAll {} rules).Consistent := consistent_empty.defineAll rules
  have h' : (defineAll {} rules').Consistent := consistent_empty.defineAll rules'
  have same : ∀ target, (defineAll {} rules).SameRules (defineAll {} rules') selection target := by
    intro target
    refine (orders target).imp_left fun equal => ?_
    rw [consistent_empty.rulesFor_defineAll, consistent_empty.rulesFor_defineAll, equal]
  have order := h.evaluationOrder_eq_of_perm h' fun target => (same target).perm
  refine ⟨order, ?_, fun target adds => ⟨fun none => ?_, fun some => ?_⟩⟩
  · show evaluateOrder _ selection _ = evaluateOrder _ selection _
    rw [order]
    exact SameRules.evaluateOrder_eq h h' same (List.append_nil _).symm
  · rw [h.getElem?_evaluate_of_addsUp adds, none]
    rfl
  · obtain ⟨v, added, sum⟩ := Value.exists_addAll_eq adds.exact some
    exact ⟨v, (h.getElem?_evaluate_of_addsUp adds).trans added, sum.integer⟩

/-- A step that follows a size in a circle, and a defense to which three rules add. -/
def defenseRules : List Rule :=
  [⟨"step", "", .set, .literal (.number 1)⟩, ⟨"step", "size", .add, .passThrough⟩,
    ⟨"size", "step", .add, .passThrough⟩, ⟨"defense", "agility", .add, .passThrough⟩,
    ⟨"defense", "shield", .add, .literal (.number 2)⟩,
    ⟨"defense", "", .add, .literal (.number (-4))⟩]

/-- The same rules in another order, in which those of the step stay in theirs. -/
def shuffledDefenseRules : List Rule :=
  [⟨"defense", "", .add, .literal (.number (-4))⟩, ⟨"step", "", .set, .literal (.number 1)⟩,
    ⟨"defense", "shield", .add, .literal (.number 2)⟩, ⟨"size", "step", .add, .passThrough⟩,
    ⟨"step", "size", .add, .passThrough⟩, ⟨"defense", "agility", .add, .passThrough⟩]

def defenseSelection : Selection := {("defense", .number 10), ("agility", .number 3)}

theorem evaluate_shuffledDefenseRules :
    (defineAll {} shuffledDefenseRules).evaluate defenseSelection =
      (defineAll {} defenseRules).evaluate defenseSelection ∧
    (defineAll {} defenseRules).AddsUp defenseSelection "defense" ∧
    Value.total ((defineAll {} defenseRules).summands defenseSelection "defense") = 9 := by
  have numbers : ∀ g : RuleGraph,
      ((g.rulesFor "defense").all fun r => r.op == .add) = true →
      ((g.summands defenseSelection "defense").all fun v => v.integer?.isSome) = true →
      ((g.summands defenseSelection "defense").inits.all fun before =>
        [0, 6, 10, 13, 9].any fun n : Number => n.toInt? == some (Value.total before)) = true →
      g.AddsUp defenseSelection "defense" := by
    intro g adds integral exact
    refine ⟨by simpa using adds, by simpa using integral, fun before first => ?_⟩
    have known := List.all_eq_true.mp exact before ((List.mem_inits _ _).mpr first)
    obtain ⟨n, -, whole⟩ := List.any_eq_true.mp known
    exact ⟨n, by simpa using whole⟩
  have adds := numbers (defineAll {} defenseRules) (by decide) (by decide)
    (by decide)
  have adds' := numbers (defineAll {} shuffledDefenseRules) (by decide) (by decide)
    (by decide)
  have orders : ∀ target, onto target shuffledDefenseRules = onto target defenseRules ∨
      ((defineAll {} shuffledDefenseRules).rulesFor target).Perm
        ((defineAll {} defenseRules).rulesFor target) ∧
        (defineAll {} defenseRules).AddsUp defenseSelection target ∧
          (defineAll {} shuffledDefenseRules).AddsUp defenseSelection target := by
    intro target
    by_cases own : target = "defense"
    · subst own
      refine .inr ⟨?_, adds, adds'⟩
      have reversed : onto "defense" shuffledDefenseRules = (onto "defense" defenseRules).reverse :=
        rfl
      rw [consistent_empty.rulesFor_defineAll, consistent_empty.rulesFor_defineAll, reversed]
      refine foldl_register_perm_of_perm (List.reverse_perm _) (fun r hr s hs equal => ?_) _
      have sources : ((onto "defense" defenseRules).map Rule.source).Nodup := by decide
      exact List.inj_on_of_nodup_map sources hr hs (Rule.beq_iff.mp equal).2.1
    · left
      by_cases step : "step" = target
      · subst step
        rfl
      · simp [onto, defenseRules, shuffledDefenseRules, List.filter_cons, Ne.symm own, step]
  exact ⟨(evaluate_defineAll_eq defenseRules _ defenseSelection orders).2.1, adds,
    by decide⟩

end CharacterRules.RuleGraph
