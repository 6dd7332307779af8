import CharacterRules.Proofs.Rule.Order
import CharacterRules.Proofs.Rule.Settled

/-!
The reach of a change. A change of some keys reaches these keys and every target with a rule that
reads a key already reached. What a change does not reach stays as it was, also where targets wait
for each other in circles and are computed from values of an earlier moment.
-/

namespace CharacterRules.RuleGraph

/-- Whether a set of keys holds some keys and every target that reads one of its keys. -/
structure IsClosed (g : RuleGraph) (changed reached : Set String) : Prop where
  changed : changed ⊆ reached
  reader : ∀ target key, g.Reads target key → key ∈ reached → target ∈ reached

/-- The keys that a change of some keys can reach. -/
inductive Reaches (g : RuleGraph) (changed : Set String) : String → Prop where
  | changed {key : String} (member : key ∈ changed) : Reaches g changed key
  | reader {target key : String} (reads : g.Reads target key) (reached : Reaches g changed key) :
      Reaches g changed target

/-- The impact of a change: the set of all keys that it can reach. -/
def impact (g : RuleGraph) (changed : Set String) : Set String := {key | g.Reaches changed key}

/-- The impact of a change is the least set that holds the changed keys and every target that reads
a key of the set. -/
theorem isLeast_impact (g : RuleGraph) (changed : Set String) :
    IsLeast {reached | g.IsClosed changed reached} (g.impact changed) := by
  constructor
  · exact ⟨fun key member => .changed member, fun target key reads reached => .reader reads reached⟩
  · intro reached closed key h
    induction h with
    | changed member => exact closed.changed member
    | reader reads _ ih => exact closed.reader _ _ reads ih

/-- Sheets that differ at most under the keys of a set. -/
def AgreeOutside (reached : Set String) (a b : Attributes) : Prop :=
  ∀ key ∉ reached, a[key]? = b[key]?

namespace IsClosed

variable {g : RuleGraph} {changed reached : Set String} (closed : g.IsClosed changed reached)
  {a b : Selection} (raw : AgreeOutside reached a b)

include closed raw

/-- The computation of one target keeps sheets together outside of a closed set: a target outside
reads nothing within. -/
theorem agreeOutside_update {sheet sheet' : Attributes} (h : AgreeOutside reached sheet sheet')
    (target : String) :
    AgreeOutside reached (sheet.update target (g.evaluateTarget target a sheet))
      (sheet'.update target (g.evaluateTarget target b sheet')) := by
  intro key outside
  by_cases same : key = target
  · subst same
    rw [Attributes.getElem?_update_self, Attributes.getElem?_update_self]
    have read : ∀ other, g.Reads key other → sheet[other]? = sheet'[other]? := by
      intro other reads
      exact h other fun within => outside (closed.reader key other reads within)
    rw [g.evaluateTarget_congr key a read, evaluateTarget, evaluateTarget, raw key outside]
  · rw [Attributes.getElem?_update_of_ne _ same, Attributes.getElem?_update_of_ne _ same]
    exact h key outside

theorem agreeOutside_evaluateOrder (order : List String) :
    AgreeOutside reached (g.evaluateOrder a order) (g.evaluateOrder b order) := by
  induction order using List.reverseRecOn with
  | nil => exact raw
  | append_singleton order target ih =>
      rw [evaluateOrder_concat, evaluateOrder_concat]
      exact closed.agreeOutside_update raw ih target

end IsClosed

/-- If two selections agree on all keys but some, then their attributes agree, in presence and value,
on all keys outside of the impact of a change of these. -/
theorem agreeOutside_impact_evaluate (g : RuleGraph) (changed : Set String) {a b : Selection}
    (agree : AgreeOutside changed a b) :
    AgreeOutside (g.impact changed) (g.evaluate a) (g.evaluate b) := by
  have closed : g.IsClosed changed (g.impact changed) := (g.isLeast_impact changed).1
  have raw : AgreeOutside (g.impact changed) a b := by
    intro key outside
    exact agree key fun member => outside (closed.changed member)
  exact closed.agreeOutside_evaluateOrder raw g.evaluationOrder

/-- Points spent on a step, beside a raw value of an attribute that others wait for. -/
def boughtSelection (points : Number) : Selection :=
  {("bought", .number points), ("toughness", .number 2)}

/-- The points do not reach the attributes that wait for each other in a circle. -/
theorem agreeOutside_evaluate_circleGraph :
    AgreeOutside {"bought"} (boughtSelection 1) (boughtSelection 3) ∧
    circleGraph.impact {"bought"} ⊆ {"bought", "step", "agility"} ∧
    AgreeOutside (circleGraph.impact {"bought"}) (circleGraph.evaluate (boughtSelection 1))
      (circleGraph.evaluate (boughtSelection 3)) := by
  have agree : AgreeOutside {"bought"} (boughtSelection 1) (boughtSelection 3) := by
    intro key other
    have apart : "bought" ≠ key := fun same => other same.symm
    simp [boughtSelection, Std.TreeMap.getElem?_insert, apart]
  have consistent : circleGraph.Consistent := (built_empty.defineAll _).consistent
  have reached : ∀ r ∈ circleGraph.rules.toList, r.formula.patterns = [] ∧
      ∀ key ∈ ["bought", "step", "agility"], key ∈ r.keys →
        r.target ∈ ["bought", "step", "agility"] := by
    decide
  have closed : circleGraph.IsClosed {"bought"} {"bought", "step", "agility"} := by
    refine ⟨by simp, ?_⟩
    rintro target key ⟨r, onto, named | ⟨pattern, listed, -⟩⟩ within
    · obtain ⟨registered, rfl⟩ := consistent.mem_rulesFor.mp onto
      simpa using (reached r registered).2 key (by simpa using within) named
    · rw [(reached r (consistent.mem_rulesFor.mp onto).1).1] at listed
      cases listed
  exact ⟨agree, (circleGraph.isLeast_impact _).2 closed,
    agreeOutside_impact_evaluate circleGraph _ agree⟩

end CharacterRules.RuleGraph
