import CharacterRules.Proofs.Note.Step
import CharacterRules.Proofs.Note.Target
import CharacterRules.Proofs.Rule.Frame
import CharacterRules.Proofs.Trait.FactKey

/-!
The compilation of notes spares the facts about requirements. A note writes the attribute that shows
it, the numbered parts of that attribute, and the attributes that its clauses name; only the first
can be a fact, and then the note is kept under its key.
-/

namespace CharacterRules

/-- The attributes that phrases name are no facts about requirements. -/
theorem TargetNames.ne_of_canonicalize {names : TargetNames} {g : RuleGraph}
    {phrase target : String} (h : names.canonicalize g phrase = some target) {key : String}
    (fact : IsRequirementKey key) : target ≠ key := by
  cases isNamed_of_canonicalize h with
  | skillStep skill =>
      exact fact.ne_append_of_head (show "skillStep.".toList.head? = some 's' by decide) (by decide) _
  | step a => exact fact.ne_append a (show 3 ≤ "Step".toList.length by decide) (by decide)
  | skillModifier skill =>
      exact fact.ne_append_of_head (show "skillModifier.".toList.head? = some 's' by decide)
        (by decide) _
  | modifier a => exact fact.ne_append a (show 3 ≤ "Modifier".toList.length by decide) (by decide)
  | plain name => exact fact.ne_attributeKey name

namespace Note

/-- A step of a compilation that spares a key in the graph and adds no change of it. -/
structure Progress.Spares (key : String) (p p' : Progress) : Prop where
  graph : RuleGraph.Spares key p.graph p'.graph
  deltas : (∀ d ∈ p.deltas, d.target ≠ key) → ∀ d ∈ p'.deltas, d.target ≠ key

namespace Progress.Spares

variable {key : String} {p p' p'' : Progress}

theorem refl (key : String) (p : Progress) : Spares key p p := ⟨.refl key p.graph, id⟩

theorem trans (h : Spares key p p') (h' : Spares key p' p'') : Spares key p p'' :=
  ⟨h.graph.trans h'.graph, fun all => h'.deltas (h.deltas all)⟩

theorem pushDelta (p : Progress) {d : PendingDelta} (other : d.target ≠ key) :
    Spares key p (p.pushDelta d) := by
  refine ⟨.refl key p.graph, fun all e he => ?_⟩
  obtain ⟨old, origin, target, -, -⟩ := PendingDelta.exists_of_mem_push he
  rw [target]
  rcases origin with rfl | member
  · exact other
  · exact all old member

theorem defineAll (p : Progress) {rules : List Rule} (others : ∀ r ∈ rules, r.target ≠ key) :
    Spares key p { p with graph := p.graph.defineAll rules } :=
  ⟨.defineAll p.graph others, id⟩

end Progress.Spares

variable {key : String} (fact : IsRequirementKey key) (names : TargetNames)

include fact

theorem Step.spares {note feature : String} {small : Prop} {p p' : Progress}
    (h : Step names note feature small p p') : Progress.Spares key p p' := by
  cases h with
  | shows op text => exact ⟨.defineNote p.graph ⟨note, feature, op, .passThrough⟩ text, id⟩
  | computes number e =>
      refine .defineAll p fun r hr => ?_
      rw [target_of_mem_placeholderRules hr]
      exact fact.ne_partKey note number
  | changes d source op target =>
      refine .pushDelta p ?_
      rcases target with count | points | ⟨phrase, named⟩
      · rw [count]
        exact fact.ne_of_head (by decide)
      · rw [points]
        exact fact.ne_of_head (by decide)
      · exact TargetNames.ne_of_canonicalize named fact

theorem spares_notes (phrasings : List Phrasing) (name feature : String)
    (notes : List (String × String)) (p : Progress) : Progress.Spares key p
      (notes.foldl (fun p (category, note) =>
        compileNote phrasings names name feature p category note) p) := by
  refine of_run (.refl key) .trans ?_ (steps_notes names phrasings name feature notes p)
  rintro p p' ⟨note, -, step⟩
  exact step.spares fact

theorem spares_compileNotes (phrasings : List Phrasing) (g : RuleGraph) (name : String)
    (notes : List (String × String)) :
    RuleGraph.Spares key g (compileNotes phrasings g names name notes) := by
  have compiled := spares_notes fact names phrasings name ("features." ++ name) notes ⟨g, []⟩
  refine compiled.graph.trans (.defineAll _ fun r hr => ?_)
  obtain ⟨d, member, rfl⟩ := List.mem_map.mp hr
  exact compiled.deltas (by simp) d member

/-- A note whose attribute is a fact is kept under the key of the fact. -/
theorem noted_compileNotes (phrasings : List Phrasing) (g : RuleGraph) {name category : String}
    (same : noteKey category name = key) (note : String) (rest : List (String × String)) :
    (compileNotes phrasings g names name ((category, note) :: rest)).notes[key]? ≠ none := by
  intro dropped
  rw [compileNotes, RuleGraph.notes_defineAll, List.foldl_cons] at dropped
  obtain ⟨m, noted, -, steps⟩ :=
    exists_steps_compileNote names phrasings name ("features." ++ name) ⟨g, []⟩ category note
  have clauses := of_run (Progress.Spares.refl key) .trans (fun _ _ step => step.spares fact) steps
  have later := clauses.trans (spares_notes fact names phrasings name ("features." ++ name) rest _)
  rw [same, later.graph.notes dropped] at noted
  cases noted

end Note
end CharacterRules
