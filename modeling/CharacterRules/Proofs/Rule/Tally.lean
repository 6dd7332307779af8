import CharacterRules.Proofs.Number.Count
import CharacterRules.Proofs.Rule.Settled

/-!
Targets that count. If the rules onto a target are gates that pass a choice on and summands for
requirements that do not hold, then the target is absent while a gate is closed, and otherwise it is
the count of the requirements that do not hold.
-/

namespace CharacterRules

namespace Rule

/-- Whether a rule adds one for a requirement that does not hold. -/
def IsTally (r : Rule) : Prop := r.op = .add ∧ ∃ p, r.formula = .unmet p

/-- Whether a rule closes its target while a choice is off. -/
def IsSwitch (r : Rule) : Prop := r.op = .gate ∧ r.formula = .passThrough ∧ r.source ≠ ""

/-- Whether a rule counts on a sheet and its requirement does not hold there. -/
def reports (r : Rule) (sheet : Attributes) : Bool :=
  r.fires sheet &&
    match r.formula with
    | .unmet p => !p.holds sheet
    | _ => false

variable {r : Rule} (sheet : Attributes)

theorem IsSwitch.isOpen_eq (h : r.IsSwitch) : r.isOpen sheet = truthy sheet[r.source]? := by
  obtain ⟨-, passed, named⟩ := h
  simp [isOpen, fires, contribution?, passed, Formula.apply, sourceValue, named]

theorem IsSwitch.reports_eq (h : r.IsSwitch) : r.reports sheet = false := by
  rw [reports, h.2.1, Bool.and_false]

/-- One more requirement is counted if it does not hold. -/
theorem IsTally.isCount_contribute (h : r.IsTally) {value : Option Value} {n : Nat}
    (counted : IsCount value n) :
    IsCount (contribute sheet value r) (n + (r.reports sheet).toNat) := by
  obtain ⟨add, p, unmet⟩ := h
  rw [contribute, reports, unmet]
  cases r.fires sheet with
  | false => exact counted
  | true =>
      rw [if_pos rfl, contribution?, unmet, add]
      simp only [Formula.apply, Bool.true_and]
      rcases counted with ⟨rfl, rfl⟩ | rfl
      · right
        simp only [Operator.combine]
        cases p.holds sheet with
        | true => rfl
        | false => rfl
      · right
        simp only [Operator.combine, Value.ofBool, Value.number?]
        rw [Number.count_add_ofBool]

theorem isCount_foldl (rules : List Rule) (h : ∀ r ∈ rules, r.IsTally) {value : Option Value}
    {n : Nat} (counted : IsCount value n) :
    IsCount (rules.foldl (contribute sheet) value) (n + rules.countP (·.reports sheet)) := by
  induction rules generalizing value n with
  | nil => exact counted
  | cons r rest ih =>
      have first := (h r List.mem_cons_self).isCount_contribute sheet counted
      have later := ih (fun s hs => h s (List.mem_cons_of_mem r hs)) first
      rw [List.foldl_cons, List.countP_cons]
      cases hr : r.reports sheet with
      | false => simpa [hr] using later
      | true => simpa [hr, Nat.add_assoc, Nat.add_comm 1] using later

end Rule

namespace RuleGraph

open Rule

theorem evaluateRules_eq_none {rules : List Rule} {r : Rule} {sheet : Attributes} (hr : r ∈ rules)
    (gate : r.op = .gate) (closed : r.isOpen sheet = false) (raw : Option Value) :
    evaluateRules rules raw sheet = none := by
  have shut : ¬ (rules.filter (·.op == .gate)).all (·.isOpen sheet) = true := by
    intro all
    have isOpen := List.all_eq_true.mp all r (List.mem_filter.mpr ⟨hr, beq_iff_eq.mpr gate⟩)
    rw [closed] at isOpen
    cases isOpen
  simp only [evaluateRules, List.partition_eq_filter_filter, shut, if_false, Bool.false_eq_true]

/-- Behind open gates, a target without raw value counts the requirements that do not hold. -/
theorem isCount_evaluateRules {rules : List Rule} {sheet : Attributes}
    (kinds : ∀ r ∈ rules, r.IsSwitch ∨ r.IsTally)
    (opened : ∀ r ∈ rules, r.IsSwitch → truthy sheet[r.source]? = true) :
    IsCount (evaluateRules rules none sheet) (rules.countP (·.reports sheet)) := by
  -- switches are gates and add nothing to the count; tallies are the summands
  have gates : (rules.filter (·.op == .gate)).all (·.isOpen sheet) = true := by
    rw [List.all_eq_true]
    intro r hr
    obtain ⟨member, gate⟩ := List.mem_filter.mp hr
    cases kinds r member with
    | inl isSwitch => rw [isSwitch.isOpen_eq, opened r member isSwitch]
    | inr tally =>
        rw [tally.1] at gate
        cases gate
  have summands : ∀ r ∈ rules.filter fun r => !(r.op == .gate), r.IsTally := by
    intro r hr
    obtain ⟨member, summand⟩ := List.mem_filter.mp hr
    cases kinds r member with
    | inl isSwitch =>
        rw [isSwitch.1] at summand
        cases summand
    | inr tally => exact tally
  have split : rules.countP (·.reports sheet) =
      (rules.filter fun r => !(r.op == .gate)).countP (·.reports sheet) := by
    rw [List.countP_filter]
    refine List.countP_congr fun r hr => ?_
    cases kinds r hr with
    | inl isSwitch => simp [isSwitch.reports_eq]
    | inr tally => simp [tally.1]
  have counted := isCount_foldl sheet _ summands (.inl ⟨rfl, rfl⟩)
  rw [Nat.zero_add] at counted
  simp only [evaluateRules, List.partition_eq_filter_filter, gates, if_true, split]
  exact counted

end RuleGraph
end CharacterRules
