import CharacterRules.Proofs.Note.Frame
import CharacterRules.Proofs.Rule.Fact

/-!
Traits that share a fact. Each trait with a fact of some key registers its gate and its clauses with
that key, whatever is registered there; what traits do besides spares the facts about requirements.
-/

namespace CharacterRules

namespace RuleGraph

/-- The gates and requirements to which the rules onto a fact belong: each rule is one of theirs,
and each of theirs is there or equals one that is. -/
structure Watched (fact : String) (watches : List (String × Prerequisite)) (g : RuleGraph) :
    Prop where
  only : ∀ r ∈ g.rulesFor fact, ∃ w ∈ watches, r ∈ factRules fact w.1 w.2
  all : ∀ w ∈ watches, ∀ r ∈ factRules fact w.1 w.2,
    ∃ s ∈ g.rulesFor fact, s = r ∨ (s == r) = true

theorem Watched.withOrder {g : RuleGraph} {fact : String} {watches : List (String × Prerequisite)}
    (h : Watched fact watches g) : Watched fact watches g.withOrder :=
  ⟨h.only, h.all⟩

theorem Watched.defineFact {g : RuleGraph} {fact : String} {watches : List (String × Prerequisite)}
    (h : Watched fact watches g) (consistent : g.Consistent) (gate : String) (p : Prerequisite) :
    Watched fact (watches ++ [(gate, p)]) (g.defineFact fact gate p) := by
  constructor
  · intro r hr
    cases consistent.of_mem_rulesFor_defineAll hr with
    | inl known =>
        obtain ⟨w, hw, rule⟩ := h.only r known
        exact ⟨w, List.mem_append_left _ hw, rule⟩
    | inr new => exact ⟨(gate, p), List.mem_append_right _ (List.mem_singleton_self _), new⟩
  · intro w hw r hr
    cases List.mem_append.mp hw with
    | inl known =>
        obtain ⟨s, hs, same⟩ := h.all w known r hr
        exact ⟨s, consistent.mem_rulesFor_defineAll_of_mem hs _, same⟩
    | inr new =>
        obtain rfl := List.mem_singleton.mp new
        exact consistent.exists_mem_rulesFor_defineAll hr (target_of_mem_factRules hr)

section

variable {g : RuleGraph} {fact : String} {watches : List (String × Prerequisite)}
variable (h : Watched fact watches g) {w : String × Prerequisite} (hw : w ∈ watches)
variable (named : w.1 ≠ "")

include h hw named

/-- Each gate is the source of some switch onto the fact. -/
theorem Watched.exists_switch : ∃ s ∈ g.rulesFor fact, s.IsSwitch ∧ s.source = w.1 := by
  have gate : switch fact w.1 ∈ factRules fact w.1 w.2 := by
    rw [factRules_eq, if_neg named]
    exact List.mem_append_left _ (List.mem_singleton_self _)
  obtain ⟨s, hs, same⟩ := h.all w hw _ gate
  refine ⟨s, hs, ?_⟩
  cases same with
  | inl eq =>
      obtain rfl := eq
      exact ⟨⟨rfl, rfl, named⟩, rfl⟩
  | inr equal =>
      obtain ⟨-, source, op, formula⟩ := Rule.beq_iff.mp equal
      exact ⟨⟨op, Formula.eq_passThrough_of_beq formula, source ▸ named⟩, source⟩

/-- Behind an open gate, some rule reports each clause that fails. -/
theorem Watched.exists_reports {c : Clause} (hc : c ∈ w.2.clauses) {sheet : Attributes}
    (on : truthy sheet[w.1]? = true) (fails : c.holds sheet = false) :
    ∃ s ∈ g.rulesFor fact, s.reports sheet = true := by
  have counts : tally fact w.1 c ∈ factRules fact w.1 w.2 := by
    rw [factRules_eq]
    exact List.mem_append_right _ (List.mem_map_of_mem hc)
  obtain ⟨s, hs, same⟩ := h.all w hw _ counts
  have shape : s.source = w.1 ∧
      ∃ d, s.formula = .unmet ⟨[d]⟩ ∧ ∀ sheet, d.holds sheet = c.holds sheet := by
    cases same with
    | inl eq =>
        obtain rfl := eq
        exact ⟨rfl, c, rfl, fun _ => rfl⟩
    | inr equal =>
        obtain ⟨-, source, -, formula⟩ := Rule.beq_iff.mp equal
        exact ⟨source, Formula.exists_of_beq_unmet formula⟩
  obtain ⟨source, d, formula, holds⟩ := shape
  refine ⟨s, hs, ?_⟩
  simp [Rule.reports, Rule.fires, Rule.sourceValue, source, formula, named, on,
    Prerequisite.holds, holds, fails]

end

/-- Behind gates of which one is on and has a clause that fails, a fact is on exactly if all its
gates are. -/
theorem Watched.truthy_iff {g : RuleGraph} {fact : String} {watches : List (String × Prerequisite)}
    (h : Watched fact watches g) (named : ∀ w ∈ watches, w.1 ≠ "") {sheet : Attributes}
    (failing : ∃ w ∈ watches, ∃ c ∈ w.2.clauses, c.holds sheet = false) :
    truthy (evaluateRules (g.rulesFor fact) none sheet) = true ↔
      ∀ w ∈ watches, truthy sheet[w.1]? = true := by
  constructor
  · intro violated w hw
    by_contra off
    obtain ⟨s, hs, isSwitch, source⟩ := h.exists_switch hw (named w hw)
    have closed : s.isOpen sheet = false := by
      rw [isSwitch.isOpen_eq, source]
      exact Bool.eq_false_iff.mpr off
    rw [evaluateRules_eq_none hs isSwitch.1 closed] at violated
    cases violated
  · intro opened
    have kinds : ∀ r ∈ g.rulesFor fact,
        (r.IsSwitch ∨ r.IsTally) ∧ truthy sheet[r.source]? = true := by
      intro r hr
      obtain ⟨w, hw, rule⟩ := h.only r hr
      obtain ⟨kind, source⟩ := kind_of_mem_factRules rule
      exact ⟨kind, source ▸ opened w hw⟩
    have counted := isCount_evaluateRules (fun r hr => (kinds r hr).1) fun r hr _ => (kinds r hr).2
    obtain ⟨w, hw, c, hc, fails⟩ := failing
    obtain ⟨s, hs, reports⟩ := h.exists_reports hw (named w hw) hc (opened w hw) fails
    rw [counted.truthy_iff]
    exact Nat.ne_of_gt (List.countP_pos_iff.mpr ⟨s, hs, reports⟩)

/-- A step that adds gates and requirements to a fact, unless a note is kept under its key. -/
structure Adds (fact : String) (new : List (String × Prerequisite)) (g g' : RuleGraph) : Prop where
  consistent : g.Consistent → g'.Consistent
  notes : g'.notes[fact]? = none → g.notes[fact]? = none
  watched : g.Consistent → g'.notes[fact]? = none → ∀ watches, Watched fact watches g →
    Watched fact (watches ++ new) g'

namespace Adds

variable {fact : String} {new more : List (String × Prerequisite)} {g g' g'' : RuleGraph}

theorem of_spares (h : Spares fact g g') : Adds fact [] g g' := by
  refine ⟨h.consistent, h.notes, fun consistent none watches watched => ?_⟩
  have same := h.rules consistent none
  rw [List.append_nil]
  exact ⟨same ▸ watched.only, same ▸ watched.all⟩

theorem trans (h : Adds fact new g g') (h' : Adds fact more g' g'') :
    Adds fact (new ++ more) g g'' := by
  refine ⟨fun c => h'.consistent (h.consistent c), fun n => h.notes (h'.notes n), ?_⟩
  intro consistent none watches watched
  have first := h.watched consistent (h'.notes none) watches watched
  rw [← List.append_assoc]
  exact h'.watched (h.consistent consistent) none (watches ++ new) first

theorem defineFact (g : RuleGraph) (fact gate : String) (p : Prerequisite) :
    Adds fact [(gate, p)] g (g.defineFact fact gate p) := by
  refine ⟨fun c => c.apply (.fact fact gate p), fun n => ?_, fun consistent _ watches watched =>
    watched.defineFact consistent gate p⟩
  rwa [← notes_defineAll g (factRules fact gate p)]

theorem foldl {α : Type} {step : RuleGraph → α → RuleGraph} {items : List α}
    {watches : α → List (String × Prerequisite)}
    (each : ∀ g, ∀ x ∈ items, Adds fact (watches x) g (step g x)) (g : RuleGraph) :
    Adds fact (items.flatMap watches) g (items.foldl step g) := by
  induction items generalizing g with
  | nil => exact of_spares (.refl fact g)
  | cons x rest ih =>
      exact (each g x List.mem_cons_self).trans
        (ih (fun g y hy => each g y (List.mem_cons_of_mem x hy)) (step g x))

end Adds

theorem Spares.defineFact (g : RuleGraph) {fact key : String} (other : key ≠ fact) (gate : String)
    (p : Prerequisite) : Spares fact g (g.defineFact key gate p) := by
  have rules : Spares fact g (g.defineAll (factRules key gate p)) := by
    refine .defineAll g fun r hr => ?_
    rwa [target_of_mem_factRules hr]
  exact ⟨fun c => c.apply (.fact key gate p), rules.notes, rules.rules⟩

end RuleGraph

namespace Trait

open RuleGraph

/-- The gate of a trait with each requirement that it reports by a fact. -/
def watches (t : Trait) (fact : String) : List (String × Prerequisite) :=
  t.facts.flatMap fun f => if t.factKey f.1 = fact then [(t.selectedKey, f.2)] else []

theorem mem_watches {t : Trait} {fact : String} {w : String × Prerequisite} :
    w ∈ t.watches fact ↔
      ∃ kind, (kind, w.2) ∈ t.facts ∧ t.factKey kind = fact ∧ w.1 = t.selectedKey := by
  simp only [watches, List.mem_flatMap, Prod.exists]
  constructor
  · rintro ⟨kind, p, member, here⟩
    split at here
    · rename_i same
      rw [List.mem_singleton.mp here]
      exact ⟨kind, member, same, rfl⟩
    · cases here
  · rintro ⟨kind, member, same, gate⟩
    refine ⟨kind, w.2, member, ?_⟩
    rw [if_pos same, ← gate]
    exact List.mem_singleton_self w

theorem adds_registerFacts (t : Trait) (fact : String) (g : RuleGraph) :
    Adds fact (t.watches fact) g (t.registerFacts g) := by
  refine Adds.foldl (fun g f _ => ?_) g
  split
  · rename_i same
    rw [← same]
    exact .defineFact g (t.factKey f.1) t.selectedKey f.2
  · rename_i other
    exact .of_spares (.defineFact g other t.selectedKey f.2)

theorem ne_empty_selectionKey (table name : String) : selectionKey table name ≠ "" := by
  have dotted : ∀ start : String, start ++ "." ++ name ≠ "" := by
    intro start empty
    have chars := congrArg String.toList empty
    simp at chars
  unfold selectionKey
  split
  · exact dotted "features"
  · exact dotted "features"
  · exact dotted table

variable {fact : String} (isFact : IsRequirementKey fact) (t : Trait)

include isFact

theorem target_ne_of_mem_tableRules {r : Rule} (h : r ∈ t.tableRules) : r.target ≠ fact := by
  -- all that tables write begins with another letter than the key of a requirement
  have feature : ∀ name : String, "features." ++ name ≠ fact :=
    isFact.ne_append_of_head (show "features.".toList.head? = some 'f' by decide) (by decide)
  have points : ∀ target ∈ ["edgesAllocated", "hindrancePoints", "powersAllocated", "armor"],
      target ≠ fact := by
    have heads : ∀ target ∈ ["edgesAllocated", "hindrancePoints", "powersAllocated", "armor"],
        target.toList.head? ≠ some 'v' := by decide
    exact fun target member => isFact.ne_of_head (heads target member)
  simp only [List.forall_mem_cons] at points
  obtain ⟨edges, hindrances, powers, armor, -⟩ := points
  rw [tableRules] at h
  split at h
  · simp only [List.mem_cons, List.not_mem_nil, or_false] at h
    cases h with
    | inl eq =>
        obtain rfl := eq
        exact feature t.name
    | inr eq =>
        obtain rfl := eq
        exact edges
  · simp only [List.mem_cons, List.not_mem_nil, or_false] at h
    cases h with
    | inl eq =>
        obtain rfl := eq
        exact feature t.name
    | inr eq =>
        obtain rfl := eq
        exact hindrances
  · obtain ⟨name, -, rfl⟩ := List.mem_map.mp h
    exact feature name
  · rw [List.mem_singleton.mp h]
    exact powers
  · obtain ⟨n, -, rfl⟩ := Option.map_eq_some_iff.mp (Option.mem_toList.mp h)
    exact armor
  · cases h

/-- The notes of a trait spare a fact, or are kept under its key. -/
theorem spares_registerNotes (paired : t.sections.length = t.notes.length) (names : TargetNames)
    (g : RuleGraph) : Spares fact g (t.registerNotes names g) := by
  rw [registerNotes]
  cases sections : t.sections with
  | nil =>
      have none : t.noteValueRule? = none := by rw [noteValueRule?, sections]
      rw [none]
      exact .refl fact g
  | cons category rest =>
      cases notes : t.notes with
      | nil =>
          rw [sections, notes] at paired
          cases paired
      | cons note others =>
          have compiled := Note.spares_compileNotes isFact names Note.standardPhrasings g t.name
            ((category, note) :: rest.zip others)
          refine compiled.trans ?_
          by_cases same : Note.noteKey category t.name = fact
          · exact .defineAll_of_noted _ (Note.noted_compileNotes isFact names
              Note.standardPhrasings g same note (rest.zip others))
          · refine .defineAll _ fun r hr => ?_
            rw [noteValueRule?, sections] at hr
            cases value : t.noteValue with
            | none => simp [value] at hr
            | some formula =>
                simp only [value, Option.toList_some, List.mem_singleton] at hr
                rw [hr]
                exact same

theorem adds_register (paired : t.sections.length = t.notes.length) (names : TargetNames)
    (g : RuleGraph) : Adds fact (t.watches fact) g (t.register names g) := by
  have table : Adds fact [] g (g.defineAll t.tableRules) :=
    .of_spares (.defineAll g fun r hr => t.target_ne_of_mem_tableRules isFact hr)
  have facts := t.adds_registerFacts fact (g.defineAll t.tableRules)
  have notes := Adds.of_spares
    (t.spares_registerNotes isFact paired names (t.registerFacts (g.defineAll t.tableRules)))
  have whole := (table.trans facts).trans notes
  rwa [List.nil_append, List.append_nil] at whole

end Trait
end CharacterRules
