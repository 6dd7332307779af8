import CharacterRules.Proofs.Rule.Dependency

/-!
Settled sheets. A sheet is settled for a selection if it holds the raw choice under each key that no
rule writes, and under each target the value that the rules of the target give on the sheet itself.
Without circles the evaluation yields a settled sheet, and it is the only one.
-/

namespace CharacterRules.RuleGraph

/-- The sheet after some targets have been computed, one after another. -/
def evaluateOrder (g : RuleGraph) (selection : Selection) (order : List String) : Attributes :=
  order.foldl
    (fun sheet target => sheet.update target (g.evaluateTarget target selection sheet)) selection

theorem evaluateOrder_concat (g : RuleGraph) (selection : Selection) (order : List String)
    (target : String) : g.evaluateOrder selection (order ++ [target]) =
      (g.evaluateOrder selection order).update target
        (g.evaluateTarget target selection (g.evaluateOrder selection order)) := by
  simp only [evaluateOrder, List.foldl_append, List.foldl_cons, List.foldl_nil]

/-- A key outside the order keeps its value. -/
theorem getElem?_evaluateOrder_append (g : RuleGraph) (selection : Selection)
    (before after : List String) {key : String} (h : key ∉ after) :
    (g.evaluateOrder selection (before ++ after))[key]? =
      (g.evaluateOrder selection before)[key]? := by
  induction after using List.reverseRecOn with
  | nil => rw [List.append_nil]
  | append_singleton after target ih =>
      rw [List.mem_append, List.mem_singleton, not_or] at h
      rw [← List.append_assoc, evaluateOrder_concat, Attributes.getElem?_update_of_ne _ h.2, ih h.1]

theorem getElem?_evaluateOrder_of_not_mem (g : RuleGraph) (selection : Selection)
    {order : List String} {key : String} (h : key ∉ order) :
    (g.evaluateOrder selection order)[key]? = selection[key]? :=
  g.getElem?_evaluateOrder_append selection [] order h

/-- The value that a target gets in its turn is its value at the end. -/
theorem getElem?_evaluateOrder_of_nodup (g : RuleGraph) (selection : Selection)
    {before after : List String} {target : String} (distinct : (before ++ target :: after).Nodup) :
    (g.evaluateOrder selection (before ++ target :: after))[target]? =
      g.evaluateTarget target selection (g.evaluateOrder selection before) := by
  have later : target ∉ after := (List.nodup_cons.mp (List.nodup_append.mp distinct).2.1).1
  rw [List.append_cons, g.getElem?_evaluateOrder_append selection _ _ later,
    evaluateOrder_concat, Attributes.getElem?_update_self]

/-- A sheet that holds the raw choices where no rule writes, and under each target what its rules
give on this sheet. -/
structure IsSettled (g : RuleGraph) (selection : Selection) (sheet : Attributes) : Prop where
  raw : ∀ key, g.hasTarget key = false → sheet[key]? = selection[key]?
  target : ∀ target, g.hasTarget target = true →
    sheet[target]? = g.evaluateTarget target selection sheet

/-- An order of all targets in which each comes once and after those it depends on. -/
structure Schedule (g : RuleGraph) (order : List String) : Prop where
  nodup : order.Nodup
  mem_iff : ∀ target, target ∈ order ↔ g.hasTarget target = true
  follows : Follows g.DependsOn [] order

namespace Schedule

variable {g : RuleGraph} {order : List String} (h : g.Schedule order) (selection : Selection)

include h

/-- A sheet whose part before a target agrees with the sheet of that moment agrees with it on all
that the target reads. -/
theorem agrees_on_reads {before after : List String} {target : String}
    (split : order = before ++ target :: after) {sheet : Attributes}
    (raw : ∀ key, g.hasTarget key = false → sheet[key]? = selection[key]?)
    (computed : ∀ key ∈ before, sheet[key]? = (g.evaluateOrder selection before)[key]?) :
    ∀ key, g.Reads target key → sheet[key]? = (g.evaluateOrder selection before)[key]? := by
  intro key reads
  cases written : g.hasTarget key with
  | true => exact computed key (h.follows before target after split key ⟨reads, written⟩)
  | false =>
      have unplaced : key ∉ before := by
        intro placed
        have member : key ∈ order := split ▸ List.mem_append_left _ placed
        rw [h.mem_iff, written] at member
        cases member
      rw [raw key written, g.getElem?_evaluateOrder_of_not_mem selection unplaced]

theorem getElem?_evaluateOrder {before after : List String} {target : String}
    (split : order = before ++ target :: after) : (g.evaluateOrder selection order)[target]? =
      g.evaluateTarget target selection (g.evaluateOrder selection before) := by
  subst split
  exact g.getElem?_evaluateOrder_of_nodup selection h.nodup

/-- Targets before the turn of a target have their values at the end. -/
theorem getElem?_evaluateOrder_before {before after : List String} {target : String}
    (split : order = before ++ target :: after) {key : String} (placed : key ∈ before) :
    (g.evaluateOrder selection order)[key]? = (g.evaluateOrder selection before)[key]? := by
  have distinct := split ▸ h.nodup
  rw [split]
  exact g.getElem?_evaluateOrder_append selection before _ fun later =>
    (List.nodup_append.mp distinct).2.2 key placed key later rfl

theorem isSettled_evaluateOrder : g.IsSettled selection (g.evaluateOrder selection order) := by
  have raw : ∀ key, g.hasTarget key = false →
      (g.evaluateOrder selection order)[key]? = selection[key]? := by
    intro key unwritten
    refine g.getElem?_evaluateOrder_of_not_mem selection fun member => ?_
    rw [h.mem_iff, unwritten] at member
    cases member
  refine ⟨raw, fun target written => ?_⟩
  obtain ⟨before, after, split⟩ := List.append_of_mem ((h.mem_iff target).mpr written)
  rw [h.getElem?_evaluateOrder selection split]
  exact (g.evaluateTarget_congr target selection (h.agrees_on_reads selection split raw
    fun key placed => h.getElem?_evaluateOrder_before selection split placed)).symm

/-- A settled sheet agrees with the evaluation, target after target along the order. -/
theorem getElem?_of_isSettled {sheet : Attributes} (settled : g.IsSettled selection sheet)
    (key : String) : sheet[key]? = (g.evaluateOrder selection order)[key]? := by
  have along : ∀ before after, order = before ++ after →
      ∀ key ∈ before, sheet[key]? = (g.evaluateOrder selection before)[key]? := by
    intro before
    induction before using List.reverseRecOn with
    | nil => simp
    | append_singleton before target ih =>
        intro after split other placed
        rw [List.append_assoc, List.singleton_append] at split
        have computed := ih (target :: after) split
        rw [evaluateOrder_concat]
        by_cases same : other = target
        · subst same
          have written : g.hasTarget other = true :=
            (h.mem_iff other).mp (split ▸ List.mem_append_right _ List.mem_cons_self)
          rw [Attributes.getElem?_update_self, settled.target other written]
          exact g.evaluateTarget_congr other selection
            (h.agrees_on_reads selection split settled.raw computed)
        · rw [Attributes.getElem?_update_of_ne _ same]
          exact computed other (by simpa [same] using placed)
  cases written : g.hasTarget key with
  | true => exact along order [] (List.append_nil order).symm key ((h.mem_iff key).mpr written)
  | false =>
      rw [settled.raw key written, (h.isSettled_evaluateOrder selection).raw key written]

end Schedule

/-- Where no rule writes, the evaluation leaves the raw choice. -/
theorem Consistent.getElem?_evaluate_of_unwritten {g : RuleGraph} (h : g.Consistent) {key : String}
    (unwritten : g.hasTarget key = false) (selection : Selection) :
    (g.evaluate selection)[key]? = selection[key]? := by
  refine g.getElem?_evaluateOrder_of_not_mem selection fun placed => ?_
  rw [h.evaluationOrder_eq, g.computeOrder_perm.mem_iff, mem_targets, unwritten] at placed
  cases placed

namespace Consistent

variable {g : RuleGraph} (h : g.Consistent) (acyclic : g.IsAcyclic)

include h acyclic

theorem schedule : g.Schedule g.evaluationOrder := by
  rw [h.evaluationOrder_eq]
  have perm := g.computeOrder_perm
  refine ⟨perm.nodup_iff.mpr g.nodup_targets, fun target => ?_, acyclic.follows⟩
  rw [perm.mem_iff, mem_targets]

/-- Without circles, the evaluation is settled. -/
theorem isSettled_evaluate (selection : Selection) :
    g.IsSettled selection (g.evaluate selection) :=
  (h.schedule acyclic).isSettled_evaluateOrder selection

/-- Without circles, a key that is not chosen has the value that its rules give on the sheet. -/
theorem getElem?_evaluate {selection : Selection} {key : String} (unset : selection[key]? = none) :
    (g.evaluate selection)[key]? =
      evaluateRules (g.rulesFor key) none (g.evaluate selection) := by
  have settled := h.isSettled_evaluate acyclic selection
  cases written : g.hasTarget key with
  | true => rw [settled.target key written, evaluateTarget, unset]
  | false =>
      rw [settled.raw key written, unset, h.rulesFor_eq_nil written]
      rfl

end Consistent

/-- Without circles, a sheet is settled exactly if it is, as a map, the one that the evaluation
computes in its single run through the targets. -/
theorem isSettled_iff_eq_evaluate (g : RuleGraph) (built : g.Built) (acyclic : g.IsAcyclic)
    (selection : Selection) (sheet : Attributes) : g.IsSettled selection sheet ↔
      ∀ key : String, sheet[key]? = (g.evaluate selection)[key]? := by
  constructor
  · intro settled key
    exact (built.consistent.schedule acyclic).getElem?_of_isSettled selection settled key
  · intro agree
    have evaluated := built.consistent.isSettled_evaluate acyclic selection
    refine ⟨fun key unwritten => ?_, fun target written => ?_⟩
    · rw [agree, evaluated.raw key unwritten]
    · rw [agree, evaluated.target target written]
      exact (g.evaluateTarget_congr target selection fun key _ => agree key).symm

/-- An attribute whose step is bought above the first one, and whose die follows the step. -/
def stepGraph : RuleGraph :=
  RuleGraph.defineAll {}
    [⟨"agilityStep", "", .set, .literal (.number 1)⟩,
      ⟨"agilityStep", "agilityAllocation", .add, .passThrough⟩,
      ⟨"agility", "agilityStep", .set, .passThrough⟩]

theorem isSettled_evaluate_stepGraph : stepGraph.Built ∧ stepGraph.IsAcyclic ∧
    stepGraph.IsSettled {("agilityAllocation", .number 2)}
      (stepGraph.evaluate {("agilityAllocation", .number 2)}) := by
  have built : stepGraph.Built := built_empty.defineAll _
  have acyclic : stepGraph.IsAcyclic :=
    built.consistent.isAcyclic_of_rank stepGraph.evaluationOrder.idxOf (by decide)
  exact ⟨built, acyclic, (isSettled_iff_eq_evaluate stepGraph built acyclic _ _).mpr fun _ => rfl⟩

end CharacterRules.RuleGraph
