import CharacterRules.Proofs.Rule.History

/-!
Growth of a graph. Registrations only add: what is written stays written, and a graph is as it was
exactly if all rules given to it were known.
-/

namespace CharacterRules.RuleGraph

theorem define_defineNote (g : RuleGraph) (key note : String) (r : Rule) :
    (g.defineNote key note).define r = (g.define r).defineNote key note := by
  have known : (g.defineNote key note).hasRule r = g.hasRule r := rfl
  rw [define, define, known]
  split <;> rfl

theorem defineAll_defineNote (g : RuleGraph) (key note : String) (rules : List Rule) :
    (g.defineNote key note).defineAll rules = (g.defineAll rules).defineNote key note := by
  induction rules generalizing g with
  | nil => rfl
  | cons r rest ih =>
      have first := g.define_defineNote key note r
      exact (congrArg (·.defineAll rest) first).trans (ih (g.define r))

theorem defineAll_append (g : RuleGraph) (rules more : List Rule) :
    g.defineAll (rules ++ more) = (g.defineAll rules).defineAll more := List.foldl_append

theorem size_rules_define (g : RuleGraph) (r : Rule) :
    (g.define r).rules.size = g.rules.size + if g.hasRule r then 0 else 1 := by
  rw [define]
  cases g.hasRule r <;> simp

theorem size_rules_le_defineAll (g : RuleGraph) (rules : List Rule) :
    g.rules.size ≤ (g.defineAll rules).rules.size := by
  induction rules generalizing g with
  | nil => exact Nat.le_refl _
  | cons r rest ih =>
      have first := g.size_rules_define r
      have later : (g.define r).rules.size ≤ (g.defineAll (r :: rest)).rules.size := ih (g.define r)
      omega

theorem defineAll_of_known {g : RuleGraph} {rules : List Rule}
    (known : ∀ r ∈ rules, g.hasRule r = true) : g.defineAll rules = g := by
  induction rules with
  | nil => rfl
  | cons r rest ih =>
      have first : g.define r = g := by rw [define, if_pos (known r List.mem_cons_self)]
      have later := ih fun s hs => known s (.tail r hs)
      show (g.define r).defineAll rest = g
      rw [first, later]

/-- Nothing is registered exactly if all rules are known. -/
theorem rules_defineAll_eq_iff {g : RuleGraph} {rules : List Rule} :
    (g.defineAll rules).rules = g.rules ↔ ∀ r ∈ rules, g.hasRule r = true := by
  constructor
  · intro same
    induction rules with
    | nil => exact List.forall_mem_nil _
    | cons r rest ih =>
        have sizes := (g.define r).size_rules_le_defineAll rest
        have first := g.size_rules_define r
        have total : ((g.define r).defineAll rest).rules.size = g.rules.size :=
          congrArg Array.size same
        cases known : g.hasRule r with
        | false =>
            rw [known] at first
            simp at first
            omega
        | true =>
            have unchanged : g.define r = g := by rw [define, if_pos known]
            have later : ((g.define r).defineAll rest).rules = g.rules := same
            rw [unchanged] at later
            exact List.forall_mem_cons.mpr ⟨known, ih later⟩
  · intro known
    rw [defineAll_of_known known]

namespace Consistent

variable {g : RuleGraph} (h : g.Consistent) {r : Rule}

include h

/-- A rule that equals itself is known once it has been given. -/
theorem hasRule_defineAll {rules : List Rule} (given : r ∈ rules) (self : (r == r) = true) :
    (g.defineAll rules).hasRule r = true := by
  obtain ⟨s, member, same⟩ := h.exists_mem_rulesFor_defineAll given rfl
  refine List.any_eq_true.mpr ⟨s, member, ?_⟩
  rcases same with rfl | equal
  · exact self
  · exact equal

end Consistent

theorem hasTarget_define_of_ne (g : RuleGraph) {r : Rule} {key : String} (other : r.target ≠ key) :
    (g.define r).hasTarget key = g.hasTarget key := by
  rw [define]
  split
  · rfl
  · simp [hasTarget, Std.TreeMap.contains_insert, other]

theorem hasTarget_define_of_hasTarget {g : RuleGraph} {key : String}
    (written : g.hasTarget key = true) (r : Rule) : (g.define r).hasTarget key = true := by
  rw [define]
  split
  · exact written
  · rw [hasTarget] at written
    simp only [hasTarget, Std.TreeMap.contains_insert, written, Bool.or_true]

theorem hasTarget_defineAll_of_hasTarget {g : RuleGraph} {key : String}
    (written : g.hasTarget key = true) (rules : List Rule) :
    (g.defineAll rules).hasTarget key = true := by
  induction rules generalizing g with
  | nil => exact written
  | cons r rest ih => exact ih (hasTarget_define_of_hasTarget written r)

end CharacterRules.RuleGraph
