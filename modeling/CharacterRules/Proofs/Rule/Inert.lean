import CharacterRules.Proofs.Prerequisite.Equality
import CharacterRules.Proofs.Rule.Tally

/-!
Registrations without effect. A rule whose source is off adds nothing to a sheet, and a gate whose
source is off keeps its target absent whatever other rules say. If all that is registered with a
graph is of these kinds, on the sheet that the graph gave before, then it gives the same sheet.
-/

namespace CharacterRules

/-- A source that keeps its rules from counting on a sheet. -/
def IsOff (sheet : Attributes) (source : String) : Prop :=
  source ≠ "" ∧ truthy sheet[source]? = false

namespace Rule

variable {r : Rule} {sheet : Attributes} (off : IsOff sheet r.source)

include off

theorem fires_of_isOff : r.fires sheet = false := by
  simp [fires, sourceValue, off.1, off.2]

theorem isOpen_of_isOff : r.isOpen sheet = false := by
  simp [isOpen, off.1, fires_of_isOff off]

end Rule

namespace RuleGraph

theorem foldl_contribute_of_isOff {rules : List Rule} {sheet : Attributes}
    (off : ∀ r ∈ rules, IsOff sheet r.source) (value : Option Value) :
    rules.foldl (Rule.contribute sheet) value = value := by
  induction rules with
  | nil => rfl
  | cons r rest ih =>
      have first := Rule.fires_of_isOff (off r List.mem_cons_self)
      rw [List.foldl_cons, Rule.contribute, first, if_neg Bool.false_ne_true]
      exact ih fun s hs => off s (List.mem_cons_of_mem r hs)

/-- Rules whose sources are off leave a target without raw value absent. -/
theorem evaluateRules_of_isOff {rules : List Rule} {sheet : Attributes}
    (off : ∀ r ∈ rules, IsOff sheet r.source) : evaluateRules rules none sheet = none := by
  simp only [evaluateRules, List.partition_eq_filter_filter]
  split
  · exact foldl_contribute_of_isOff (fun r hr => off r (List.mem_filter.mp hr).1) none
  · rfl

/-- Further rules whose sources are off change nothing, unless one is a gate. -/
theorem evaluateRules_append_of_isOff {rules new : List Rule} {sheet : Attributes}
    (off : ∀ r ∈ new, IsOff sheet r.source ∧ r.op ≠ .gate) (raw : Option Value) :
    evaluateRules (rules ++ new) raw sheet = evaluateRules rules raw sheet := by
  have gates : new.filter (·.op == .gate) = [] := by
    rw [List.filter_eq_nil_iff]
    intro r hr gate
    exact (off r hr).2 (beq_iff_eq.mp gate)
  have others : ∀ value, (new.filter fun r => !(r.op == .gate)).foldl
      (Rule.contribute sheet) value = value :=
    foldl_contribute_of_isOff fun r hr => (off r (List.mem_filter.mp hr).1).1
  simp only [evaluateRules, List.partition_eq_filter_filter, List.filter_append, gates,
    List.append_nil, List.foldl_append, Function.comp_def, others]

/-- Registrations that do nothing on a sheet. The sources of what is added to a target are off, and
only keys of one's own get gates; or the target is a key of one's own that a gate keeps absent. -/
structure Inert (own : String → Prop) (sheet : Attributes) (g g' : RuleGraph) : Prop where
  consistent : g.Consistent → g'.Consistent
  rules : g.Consistent → ∀ target, ∃ new, g'.rulesFor target = g.rulesFor target ++ new ∧
    ((∀ r ∈ new, IsOff sheet r.source ∧ (r.op = .gate → own target)) ∨
      own target ∧ ∃ r ∈ g'.rulesFor target, r.op = .gate ∧ IsOff sheet r.source)

namespace Inert

variable {own : String → Prop} {sheet : Attributes} {g g' g'' : RuleGraph}

theorem refl (own : String → Prop) (sheet : Attributes) (g : RuleGraph) : Inert own sheet g g :=
  ⟨id, fun _ _ => ⟨[], (List.append_nil _).symm, .inl (by simp)⟩⟩

theorem trans (h : Inert own sheet g g') (h' : Inert own sheet g' g'') :
    Inert own sheet g g'' := by
  refine ⟨fun c => h'.consistent (h.consistent c), fun c target => ?_⟩
  obtain ⟨new, first, kind⟩ := h.rules c target
  obtain ⟨new', second, kind'⟩ := h'.rules (h.consistent c) target
  refine ⟨new ++ new', by rw [second, first, List.append_assoc], ?_⟩
  rcases kind' with off' | shut'
  · rcases kind with off | ⟨mine, r, member, shut⟩
    · refine .inl fun r hr => ?_
      cases List.mem_append.mp hr with
      | inl early => exact off r early
      | inr late => exact off' r late
    · exact .inr ⟨mine, r, second ▸ List.mem_append_left new' member, shut⟩
  · exact .inr shut'

theorem define (g : RuleGraph) {r : Rule} (off : IsOff sheet r.source)
    (gates : r.op = .gate → own r.target) : Inert own sheet g (g.define r) := by
  refine ⟨fun c => c.define r, fun c target => ?_⟩
  rw [c.rulesFor_define]
  split
  · rename_i new
    refine ⟨[r], rfl, .inl fun s hs => ?_⟩
    obtain rfl := List.mem_singleton.mp hs
    exact ⟨off, new.1 ▸ gates⟩
  · exact ⟨[], (List.append_nil _).symm, .inl (by simp)⟩

theorem defineAll (g : RuleGraph) {rules : List Rule}
    (off : ∀ r ∈ rules, IsOff sheet r.source ∧ r.op ≠ .gate) :
    Inert own sheet g (g.defineAll rules) := by
  induction rules generalizing g with
  | nil => exact .refl own sheet g
  | cons r rest ih =>
      obtain ⟨first, plain⟩ := off r List.mem_cons_self
      have step : Inert own sheet g (g.define r) := .define g first fun gate => absurd gate plain
      exact step.trans (ih (g.define r) fun s hs => off s (List.mem_cons_of_mem r hs))

/-- Rules onto a key of one's own, among them a gate whose source is off. -/
theorem defineAll_of_shut (g : RuleGraph) {rules : List Rule} {key : String} (mine : own key)
    (onto : ∀ r ∈ rules, r.target = key) {gate : Rule} (member : gate ∈ rules)
    (op : gate.op = .gate) (off : IsOff sheet gate.source) :
    Inert own sheet g (g.defineAll rules) := by
  refine ⟨fun c => c.defineAll rules, fun c target => ?_⟩
  by_cases same : target = key
  · subst same
    obtain ⟨new, added⟩ := c.exists_rulesFor_defineAll_eq rules target
    refine ⟨new, added, .inr ⟨mine, ?_⟩⟩
    obtain ⟨r, registered, same⟩ := c.exists_mem_rulesFor_defineAll member (onto gate member)
    refine ⟨r, registered, ?_⟩
    rcases same with rfl | equal
    · exact ⟨op, off⟩
    · obtain ⟨-, source, op', -⟩ := Rule.beq_iff.mp equal
      exact ⟨op'.trans op, source ▸ off⟩
  · have others : ∀ r ∈ rules, r.target ≠ target := fun r hr => onto r hr ▸ Ne.symm same
    exact ⟨[], by rw [c.rulesFor_defineAll_of_ne others, List.append_nil], .inl (by simp)⟩

theorem defineNote (g : RuleGraph) (key text : String) :
    Inert own sheet g (g.defineNote key text) :=
  ⟨fun c => c.apply (.note key text), fun _ _ => ⟨[], (List.append_nil _).symm, .inl (by simp)⟩⟩

section

variable (h : Inert own sheet g g') (consistent : g.Consistent)

include h consistent

theorem hasTarget {key : String} (written : g.hasTarget key = true) :
    g'.hasTarget key = true := by
  obtain ⟨r, registered, target⟩ := consistent.hasTarget_iff.mp written
  obtain ⟨new, rules, -⟩ := h.rules consistent key
  have kept : r ∈ g'.rulesFor key := by
    rw [rules]
    exact List.mem_append_left new (consistent.mem_rulesFor.mpr ⟨registered, target⟩)
  obtain ⟨registered', target'⟩ := (h.consistent consistent).mem_rulesFor.mp kept
  exact (h.consistent consistent).hasTarget_iff.mpr ⟨r, registered', target'⟩

/-- A graph has no circle that is not there after further registrations. -/
theorem isAcyclic (acyclic : g'.IsAcyclic) : g.IsAcyclic := by
  have kept : ∀ target key, g.DependsOn target key → g'.DependsOn target key := by
    rintro target key ⟨⟨r, member, reads⟩, written⟩
    obtain ⟨new, rules, -⟩ := h.rules consistent target
    exact ⟨⟨r, rules ▸ List.mem_append_left new member, reads⟩, h.hasTarget consistent written⟩
  exact fun target circle => acyclic target (circle.lift id kept)

end

/-- The sheet that a graph gives stays settled, so it is what the graph gives afterwards. -/
theorem getElem?_evaluate {selection : Selection}
    (h : Inert own (g.evaluate selection) g g') (consistent : g.Consistent)
    (acyclic : g'.IsAcyclic)
    (unused : ∀ key, own key → g.hasTarget key = false ∧ selection[key]? = none) (key : String) :
    (g'.evaluate selection)[key]? = (g.evaluate selection)[key]? := by
  -- the order of evaluation may change, so nothing is compared target by target along it
  have settled := consistent.isSettled_evaluate (h.isAcyclic consistent acyclic) selection
  have resettled : g'.IsSettled selection (g.evaluate selection) := by
    constructor
    · intro key unwritten
      refine settled.raw key ?_
      rw [Bool.eq_false_iff]
      intro written
      rw [h.hasTarget consistent written] at unwritten
      cases unwritten
    · intro target _
      obtain ⟨new, rules, kind⟩ := h.rules consistent target
      by_cases mine : own target
      · obtain ⟨unwritten, unset⟩ := unused target mine
        rw [settled.raw target unwritten, unset, evaluateTarget, unset]
        rcases kind with off | ⟨-, r, member, gate, off⟩
        · rw [rules, consistent.rulesFor_eq_nil unwritten, List.nil_append]
          exact (evaluateRules_of_isOff fun r hr => (off r hr).1).symm
        · exact (evaluateRules_eq_none member gate (Rule.isOpen_of_isOff off) none).symm
      · have off := kind.resolve_right fun shut => mine shut.1
        rw [evaluateTarget, rules, evaluateRules_append_of_isOff fun r hr =>
          ⟨(off r hr).1, fun gate => mine ((off r hr).2 gate)⟩]
        cases written : g.hasTarget target with
        | true => exact settled.target target written
        | false =>
            rw [settled.raw target written, consistent.rulesFor_eq_nil written]
            rfl
  have schedule := (h.consistent consistent).schedule acyclic
  exact (schedule.getElem?_of_isSettled selection resettled key).symm

end Inert
end RuleGraph
end CharacterRules
