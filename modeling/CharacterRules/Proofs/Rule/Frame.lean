import CharacterRules.Proofs.Rule.History

/-!
Steps that spare a key. What registers rules onto other keys leaves those onto a key as they are; a
step that does write onto the key may keep a note under it, by which it can be told.
-/

namespace CharacterRules.RuleGraph

/-- A step that keeps the parts of a graph in step, drops no note under a key and, unless a note is
kept under the key, leaves the rules onto the key as they are. -/
structure Spares (key : String) (g g' : RuleGraph) : Prop where
  consistent : g.Consistent → g'.Consistent
  notes : g'.notes[key]? = none → g.notes[key]? = none
  rules : g.Consistent → g'.notes[key]? = none → g'.rulesFor key = g.rulesFor key

namespace Spares

variable {key : String} {g g' g'' : RuleGraph}

theorem refl (key : String) (g : RuleGraph) : Spares key g g :=
  ⟨id, id, fun _ _ => rfl⟩

theorem trans (h : Spares key g g') (h' : Spares key g' g'') : Spares key g g'' := by
  refine ⟨fun c => h'.consistent (h.consistent c), fun n => h.notes (h'.notes n), ?_⟩
  intro c n
  rw [h'.rules (h.consistent c) n, h.rules c (h'.notes n)]

theorem defineAll (g : RuleGraph) {rules : List Rule} (others : ∀ r ∈ rules, r.target ≠ key) :
    Spares key g (g.defineAll rules) := by
  refine ⟨fun c => c.defineAll rules, fun n => ?_, fun c _ => c.rulesFor_defineAll_of_ne others⟩
  rwa [notes_defineAll] at n

/-- A rule onto a key under which a note is kept, too. -/
theorem defineAll_of_noted (g : RuleGraph) {rules : List Rule} (noted : g.notes[key]? ≠ none) :
    Spares key g (g.defineAll rules) := by
  refine ⟨fun c => c.defineAll rules, fun n => ?_, fun _ n => ?_⟩
  · rwa [notes_defineAll] at n
  · rw [notes_defineAll] at n
    exact absurd n noted

/-- The note of a trait, with the rule that shows it. -/
theorem defineNote (g : RuleGraph) (r : Rule) (text : String) :
    Spares key g ((g.define r).defineNote r.target text) := by
  by_cases same : r.target = key
  · have noted : ((g.define r).defineNote r.target text).notes[key]? ≠ none := by
      simp [RuleGraph.defineNote, same]
    exact ⟨fun c => (c.define r).apply (.note r.target text), fun n => absurd n noted,
      fun _ n => absurd n noted⟩
  · have kept : ((g.define r).defineNote r.target text).notes[key]? = g.notes[key]? := by
      simp only [RuleGraph.defineNote, notes_define, Std.TreeMap.getElem?_insert,
        Std.LawfulEqCmp.compare_eq_iff_eq]
      exact if_neg same
    refine ⟨fun c => (c.define r).apply (.note r.target text), fun n => kept ▸ n, fun c _ => ?_⟩
    have rules := c.rulesFor_define r key
    rw [if_neg fun both => same both.1] at rules
    exact rules

end Spares
end CharacterRules.RuleGraph
