import CharacterRules.Note.Target
import CharacterRules.Proofs.Note.Key
import CharacterRules.Proofs.Rule.Growth

/-!
Attributes that phrases name. They are steps and modifiers, or attributes without a point in their
key; and of what a graph writes, only the keys without a point count for what a phrase names.
-/

namespace CharacterRules

namespace RuleGraph

/-- Whether the same keys without a point are written in two graphs. -/
def SameNames (g g' : RuleGraph) : Prop :=
  ∀ key : String, '.' ∉ key.toList → g'.hasTarget key = g.hasTarget key

theorem SameNames.refl (g : RuleGraph) : g.SameNames g := fun _ _ => rfl

theorem SameNames.trans {g g' g'' : RuleGraph} (h : g.SameNames g') (h' : g'.SameNames g'') :
    g.SameNames g'' := fun key plain => (h' key plain).trans (h key plain)

theorem SameNames.defineNote {g g' : RuleGraph} (h : g.SameNames g') (key note : String) :
    g.SameNames (g'.defineNote key note) := h

theorem sameNames_defineAll (g : RuleGraph) {rules : List Rule}
    (pointed : ∀ r ∈ rules, '.' ∈ r.target.toList) : g.SameNames (g.defineAll rules) := by
  intro key plain
  induction rules generalizing g with
  | nil => rfl
  | cons r rest ih =>
      have other : r.target ≠ key := by
        rintro rfl
        exact plain (pointed r List.mem_cons_self)
      exact (ih (g.define r) fun s hs => pointed s (.tail r hs)).trans
        (g.hasTarget_define_of_ne other)

end RuleGraph

namespace TargetNames

/-- What a phrase names depends only on the keys without a point that are written. -/
theorem canonicalize_congr (names : TargetNames) {g g' : RuleGraph}
    (same : g.SameNames g') (phrase : String) :
    names.canonicalize g' phrase = names.canonicalize g phrase := by
  delta canonicalize
  dsimp only
  rw [same _ (Note.point_not_mem_attributeKey _)]

/-- A phrase that names something goes on to name it while rules are registered. -/
theorem canonicalize_mono (names : TargetNames) {g g' : RuleGraph}
    (more : ∀ key, g.hasTarget key = true → g'.hasTarget key = true) {phrase target : String}
    (named : names.canonicalize g phrase = some target) :
    names.canonicalize g' phrase = some target := by
  delta canonicalize at named ⊢
  dsimp only at named ⊢
  generalize stepped? (bare phrase) = base at named ⊢
  generalize names.skill? (bare phrase) = skill at named ⊢
  generalize names.attribute? (bare phrase) = other at named ⊢
  cases base with
  | some base => exact named
  | none =>
      cases skill with
      | some s => exact named
      | none =>
          cases other with
          | some a => exact named
          | none =>
              dsimp only at named ⊢
              split at named
              · rename_i plain
                rw [Bool.and_eq_true, Bool.or_eq_true] at plain
                rw [if_pos (by
                  rw [Bool.and_eq_true, Bool.or_eq_true]
                  exact plain.imp_right (.imp_right (more _)))]
                exact named
              · cases named

/-- The keys that phrases can name. -/
inductive IsNamed (names : TargetNames) : String → Prop where
  | skillStep (skill : String) (known : skill ∈ names.skills) :
      IsNamed names ("skillStep." ++ skill)
  | step (ability : String) : IsNamed names (ability ++ "Step")
  | skillModifier (skill : String) (known : skill ∈ names.skills) :
      IsNamed names ("skillModifier." ++ skill)
  | modifier (ability : String) : IsNamed names (ability ++ "Modifier")
  | plain (name : String) : IsNamed names (Note.attributeKey name)

theorem mem_skills_of_skill? {names : TargetNames} {phrase : List Char} {skill : String}
    (h : names.skill? phrase = some skill) : skill ∈ names.skills :=
  Std.TreeSet.mem_toList.mp (List.mem_of_find?_eq_some h)

theorem isNamed_of_canonicalize {names : TargetNames} {g : RuleGraph} {phrase target : String}
    (h : names.canonicalize g phrase = some target) : IsNamed names target := by
  delta canonicalize at h
  dsimp only at h
  split at h
  · split at h
    · rename_i found
      exact Option.some.inj h ▸ .skillStep _ (mem_skills_of_skill? found)
    · obtain ⟨a, -, rfl⟩ := Option.map_eq_some_iff.mp h
      exact .step a
  · split at h
    · rename_i found
      exact Option.some.inj h ▸ .skillModifier _ (mem_skills_of_skill? found)
    · split at h
      · exact Option.some.inj h ▸ .modifier _
      · split at h
        · exact Option.some.inj h ▸ .plain _
        · cases h

end TargetNames
end CharacterRules
