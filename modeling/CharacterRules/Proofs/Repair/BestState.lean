import CharacterRules.Repair.Basic

/-!
The outcome of a repair. A run goes through passes, whatever they do to the selection; the selection
that comes out is one of those the run began with or ended a pass with, and none of these has fewer
violated facts.
-/

namespace CharacterRules.Ruleset

/-- The passes of a run, each with the selection at its end: a run begins a pass as long as some are
left, a fact is violated and the pass before has changed something. -/
inductive Passes (r : Ruleset) (fuel : Nat) : Nat → RepairState → List Selection → Prop
  | exhausted (p : RepairState) : Passes r fuel 0 p []
  | clean (passes : Nat) (p : RepairState) (clean : r.violations p.selection = []) :
      Passes r fuel (passes + 1) p []
  | stuck (passes : Nat) (p q : RepairState) (violated : r.violations p.selection ≠ [])
      (pass : r.repairPass fuel (r.violations p.selection) p = some (q, false)) :
      Passes r fuel (passes + 1) p [q.selection]
  | fixed (passes : Nat) (p q : RepairState) (ends : List Selection)
      (violated : r.violations p.selection ≠ [])
      (pass : r.repairPass fuel (r.violations p.selection) p = some (q, true))
      (rest : Passes r fuel passes q ends) :
      Passes r fuel (passes + 1) p (q.selection :: ends)

/-- A selection among those seen that has the fewest violated facts of them. -/
structure IsBest (r : Ruleset) (seen : List Selection) (best : Selection) : Prop where
  mem : best ∈ seen
  le : ∀ s ∈ seen, r.violationCount best ≤ r.violationCount s

theorem isBest_singleton (r : Ruleset) (s : Selection) : r.IsBest [s] s := by
  refine ⟨List.mem_singleton_self s, fun t ht => ?_⟩
  obtain rfl := List.mem_singleton.mp ht
  exact Nat.le_refl _

/-- Comparing the best selection with the one at the end of a pass keeps it the best. -/
theorem IsBest.concat {r : Ruleset} {seen : List Selection} {best : Selection}
    (h : r.IsBest seen best) (s : Selection) :
    r.IsBest (seen ++ [s]) (r.fewerViolations best s) := by
  rw [fewerViolations]
  split
  · rename_i fewer
    refine ⟨List.mem_append_right _ (List.mem_singleton_self s), fun t ht => ?_⟩
    cases List.mem_append.mp ht with
    | inl before => exact Nat.le_trans (Nat.le_of_lt fewer) (h.le t before)
    | inr last =>
        obtain rfl := List.mem_singleton.mp last
        exact Nat.le_refl _
  · rename_i notFewer
    refine ⟨List.mem_append_left _ h.mem, fun t ht => ?_⟩
    cases List.mem_append.mp ht with
    | inl before => exact h.le t before
    | inr last =>
        rw [List.mem_singleton.mp last]
        exact Nat.le_of_not_lt notFewer

/-- A run that returns has gone through passes; its best selection is the best of all seen so far,
and it stops at the end of its last pass. -/
theorem passes_of_repairPasses {r : Ruleset} {fuel passes : Nat} {p q : RepairState}
    {seen : List Selection} {best last : Selection} (h : r.IsBest seen best)
    (current : p.selection ∈ seen)
    (run : r.repairPasses fuel passes p best = some (q, last)) :
    ∃ ends, r.Passes fuel passes p ends ∧ r.IsBest (seen ++ ends) last ∧
      q.selection ∈ seen ++ ends := by
  induction passes generalizing p seen best with
  | zero =>
      obtain ⟨rfl, rfl⟩ := Prod.mk.inj (Option.some.inj run)
      exact ⟨[], .exhausted p, by rwa [List.append_nil], by rwa [List.append_nil]⟩
  | succ passes ih =>
      rw [repairPasses] at run
      split at run
      · rename_i none
        obtain ⟨rfl, rfl⟩ := Prod.mk.inj (Option.some.inj run)
        exact ⟨[], .clean passes p none, by rwa [List.append_nil], by rwa [List.append_nil]⟩
      · rename_i violated
        obtain ⟨⟨m, fixed⟩, pass, rest⟩ := Option.bind_eq_some_iff.mp run
        have better := h.concat m.selection
        have reached : m.selection ∈ seen ++ [m.selection] :=
          List.mem_append_right _ (List.mem_singleton_self _)
        cases fixed with
        | false =>
            obtain ⟨rfl, rfl⟩ := Prod.mk.inj (Option.some.inj rest)
            exact ⟨[m.selection], .stuck passes p m violated pass, better, reached⟩
        | true =>
            obtain ⟨ends, tail, final, stopped⟩ := ih better reached rest
            rw [List.append_assoc, List.singleton_append] at final stopped
            exact ⟨m.selection :: ends, .fixed passes p m ends violated pass tail, final, stopped⟩

/-- The last comparison of a run prefers where it stopped, and returns a best selection as well. -/
theorem IsBest.fewerViolations_left {r : Ruleset} {seen : List Selection} {best : Selection}
    (h : r.IsBest seen best) {s : Selection} (hs : s ∈ seen) :
    r.IsBest seen (r.fewerViolations s best) := by
  rw [fewerViolations]
  split
  · exact h
  · rename_i notFewer
    exact ⟨hs, fun t ht => Nat.le_trans (Nat.le_of_not_lt notFewer) (h.le t ht)⟩

theorem Passes.eq_nil_of_clean {r : Ruleset} {fuel passes : Nat} {p : RepairState}
    {ends : List Selection} (h : r.Passes fuel passes p ends)
    (clean : r.violations p.selection = []) : ends = [] := by
  cases h with
  | exhausted => rfl
  | clean => rfl
  | stuck passes p q violated => exact absurd clean violated
  | fixed passes p q ends violated => exact absurd clean violated

/-- A repair that returns gives back, as a whole, the selection it was given or the one at the end
of one of its passes, and none of these has fewer violated facts. -/
theorem isBest_of_makeValid (r : Ruleset) (fuel : Nat) (s t : Selection) (random rest : Random)
    (h : r.makeValid fuel s random = some (t, rest)) :
    (∃ ends, r.Passes fuel r.repair.maxPasses ⟨s, {}, random⟩ ends ∧ r.IsBest (s :: ends) t) ∧
      r.violationCount t ≤ r.violationCount s ∧ (r.violations s = [] → t = s) := by
  obtain ⟨⟨q, best⟩, run, returned⟩ := Option.bind_eq_some_iff.mp h
  obtain ⟨rfl, -⟩ := Prod.mk.inj (Option.some.inj returned)
  obtain ⟨ends, passes, final, stopped⟩ :=
    passes_of_repairPasses (r.isBest_singleton s) (List.mem_singleton_self s) run
  have result := final.fewerViolations_left stopped
  refine ⟨⟨ends, passes, result⟩, result.le s List.mem_cons_self, fun clean => ?_⟩
  have seen := result.mem
  rw [passes.eq_nil_of_clean clean] at seen
  exact List.mem_singleton.mp seen

/-- A ruleset with one edge, which asks for four advances. -/
def advancedEdge : Ruleset where
  catalog := {}
  graph := RuleGraph.defineFact {} "validationNotes.blockEdge" "edges.Block"
    (.single ⟨.key "advances", .compare .ge (.number 4)⟩)
  names := {}
  issues := []

theorem isBest_makeValid_advancedEdge : ∃ t rest,
    advancedEdge.makeValid 0 {("edges.Block", .number 1)} (Random.ofSeed 7) = some (t, rest) ∧
      advancedEdge.violationCount t = 0 ∧ ∃ ends, t ∈ {("edges.Block", .number 1)} :: ends ∧
        advancedEdge.Passes 0 8 ⟨{("edges.Block", .number 1)}, {}, Random.ofSeed 7⟩ ends := by
  have returns : (advancedEdge.makeValid 0 {("edges.Block", .number 1)} (Random.ofSeed 7)).any
      (fun result => advancedEdge.violationCount result.1 == 0) = true := by decide +kernel
  obtain ⟨⟨t, rest⟩, h, repaired⟩ := (Option.any_eq_true _ _).mp returns
  obtain ⟨⟨ends, passes, best⟩, -⟩ := isBest_of_makeValid advancedEdge 0 _ t _ rest h
  exact ⟨t, rest, h, beq_iff_eq.mp repaired, ends, best.mem, passes⟩

end CharacterRules.Ruleset
