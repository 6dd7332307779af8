import CharacterRules.Proofs.Prerequisite.Equality
import CharacterRules.Proofs.Rule.Tally

/-!
Facts. The rules of a fact and the requirement kept for it are written by the same calls, each of
which leaves out what is known. If these calls share one gate and nothing else writes either of the
two, the rules are at every moment those of the requirement kept, and so the fact counts what fails
of it.
-/

namespace CharacterRules

/-- Whether a call writes the rules onto a key or the requirement kept for it. -/
def Registration.Concerns (key : String) : Registration → Prop
  | .rule r => r.target = key
  | .requirement other _ => other = key
  | .fact other _ _ => other = key
  | .note _ _ | .order => False

namespace RuleGraph

/-- The rule that closes a fact while its gate is off. -/
def switch (fact gate : String) : Rule := ⟨fact, gate, .gate, .passThrough⟩

/-- The rule by which a fact counts a clause. -/
def tally (fact gate : String) (c : Clause) : Rule := ⟨fact, gate, .add, .unmet ⟨[c]⟩⟩

theorem factRules_eq (fact gate : String) (p : Prerequisite) : factRules fact gate p =
    (if gate = "" then [] else [switch fact gate]) ++ p.clauses.map (tally fact gate) := by
  simp only [factRules, beq_iff_eq]
  rfl

theorem target_of_mem_factRules {fact gate : String} {p : Prerequisite} {r : Rule}
    (h : r ∈ factRules fact gate p) : r.target = fact := by
  rw [factRules_eq, List.mem_append, List.mem_map] at h
  rcases h with gates | ⟨c, -, rfl⟩
  · split at gates
    · cases gates
    · rw [List.mem_singleton.mp gates]
      rfl
  · rfl

theorem isTally_tally (fact gate : String) (c : Clause) : (tally fact gate c).IsTally :=
  ⟨rfl, ⟨[c]⟩, rfl⟩

theorem tally_beq_tally {fact gate : String} {c d : Clause} :
    (tally fact gate c == tally fact gate d) = (c == d) := by
  show (fact == fact && gate == gate && Operator.add == Operator.add && ([c] == [d])) = _
  simp

theorem switch_beq_tally {fact gate : String} {c : Clause} :
    (switch fact gate == tally fact gate c) = false := by
  show (fact == fact && gate == gate && Operator.gate == Operator.add && _) = _
  simp

theorem switch_beq_self (fact gate : String) : (switch fact gate == switch fact gate) = true := by
  show (fact == fact && gate == gate && Operator.gate == Operator.gate && true) = true
  simp

/-- A clause is known to the rules of a fact exactly if it is known to the requirement. -/
theorem any_factRules_beq_tally (fact gate : String) (p : Prerequisite) (c : Clause) :
    (factRules fact gate p).any (· == tally fact gate c) = p.clauses.contains c := by
  have known : (p.clauses.map (tally fact gate)).any (· == tally fact gate c) =
      p.clauses.contains c := by
    rw [List.any_map, List.contains_eq_any_beq]
    refine congrArg p.clauses.any (funext fun d => ?_)
    rw [Function.comp_apply, tally_beq_tally, Clause.beq_comm]
  rw [factRules_eq, List.any_append, known]
  split
  · rfl
  · rw [List.any_cons, switch_beq_tally, List.any_nil, Bool.or_self, Bool.false_or]

variable {g : RuleGraph} {fact gate : String}

theorem Consistent.rulesFor_define_tally (h : g.Consistent) {p : Prerequisite}
    (rules : g.rulesFor fact = factRules fact gate p) (c : Clause) :
    (g.define (tally fact gate c)).rulesFor fact =
      factRules fact gate ⟨if p.clauses.contains c then p.clauses else p.clauses ++ [c]⟩ := by
  have known : g.hasRule (tally fact gate c) = p.clauses.contains c := by
    rw [← any_factRules_beq_tally fact gate, ← rules]
    rfl
  rw [h.rulesFor_define, known, rules]
  cases p.clauses.contains c with
  | true => rw [if_neg (by simp), if_pos rfl]
  | false =>
      rw [if_pos ⟨rfl, rfl⟩, factRules_eq, factRules_eq, List.append_assoc]
      simp

theorem Consistent.rulesFor_defineAll_tallies (h : g.Consistent) {p : Prerequisite}
    (rules : g.rulesFor fact = factRules fact gate p) (clauses : List Clause) :
    (g.defineAll (clauses.map (tally fact gate))).rulesFor fact =
      factRules fact gate ⟨Prerequisite.addClauses p.clauses clauses⟩ := by
  induction clauses generalizing g p with
  | nil => exact rules
  | cons c rest ih => exact ih (h.define _) (h.rulesFor_define_tally rules c)

/-- The gate of a fact is registered once. -/
theorem Consistent.rulesFor_defineAll_switch (h : g.Consistent) {p : Prerequisite}
    (rules : g.rulesFor fact = factRules fact gate p ∨ g.rulesFor fact = [] ∧ p.clauses = []) :
    (g.defineAll (if gate = "" then [] else [switch fact gate])).rulesFor fact =
      factRules fact gate p := by
  by_cases unconditional : gate = ""
  · rw [if_pos unconditional]
    rcases rules with known | ⟨none, empty⟩
    · exact known
    · rw [factRules_eq, empty, if_pos unconditional]
      exact none
  · rw [if_neg unconditional]
    show (g.define (switch fact gate)).rulesFor fact = _
    have present : g.hasRule (switch fact gate) =
        (g.rulesFor fact).any (· == switch fact gate) := rfl
    rw [h.rulesFor_define, present]
    rcases rules with known | ⟨none, empty⟩
    · rw [known, factRules_eq, if_neg unconditional]
      simp [switch_beq_self]
    · rw [none, factRules_eq, empty, if_neg unconditional]
      simp [switch]

/-- Registering a fact again merges what is new into its rules and into its requirement alike. -/
theorem Consistent.rulesFor_defineFact (h : g.Consistent) {p : Prerequisite}
    (rules : g.rulesFor fact = factRules fact gate p ∨ g.rulesFor fact = [] ∧ p.clauses = [])
    (q : Prerequisite) : (g.defineFact fact gate q).rulesFor fact =
      factRules fact gate ⟨Prerequisite.addClauses p.clauses q.clauses⟩ := by
  have gated := h.rulesFor_defineAll_switch rules
  have merged := (h.defineAll _).rulesFor_defineAll_tallies gated q.clauses
  have both : g.defineFact fact gate q =
      ((g.defineAll (if gate = "" then [] else [switch fact gate])).defineAll
        (q.clauses.map (tally fact gate))).defineRequirement fact q := by
    rw [defineFact, factRules_eq, RuleGraph.defineAll, List.foldl_append]
    rfl
  rw [both]
  exact merged

theorem requirements_defineFact (g : RuleGraph) (fact gate : String) (q : Prerequisite) :
    (g.defineFact fact gate q).requirements[fact]? =
      some ⟨Prerequisite.addClauses (g.requirements.getD fact default).clauses q.clauses⟩ := by
  simp [defineFact, defineRequirement]

theorem Consistent.apply_of_not_concerns (h : g.Consistent) {x : Registration}
    (other : ¬ x.Concerns fact) : (x.apply g).rulesFor fact = g.rulesFor fact ∧
      (x.apply g).requirements[fact]? = g.requirements[fact]? := by
  cases x with
  | rule r =>
      have away : ∀ s ∈ [r], s.target ≠ fact := by
        intro s hs
        rw [List.mem_singleton.mp hs]
        exact other
      refine ⟨h.rulesFor_defineAll_of_ne away, ?_⟩
      simp only [Registration.apply, requirements_define]
  | note key text => exact ⟨rfl, rfl⟩
  | requirement key p =>
      refine ⟨rfl, ?_⟩
      simp only [Registration.apply, defineRequirement, Std.TreeMap.getElem?_insert,
        Std.LawfulEqCmp.compare_eq_iff_eq]
      exact if_neg other
  | fact key others p =>
      have away : ∀ s ∈ factRules key others p, s.target ≠ fact := by
        intro s hs
        rw [target_of_mem_factRules hs]
        exact other
      refine ⟨h.rulesFor_defineAll_of_ne away, ?_⟩
      simp only [Registration.apply, defineFact, defineRequirement, requirements_defineAll,
        Std.TreeMap.getElem?_insert, Std.LawfulEqCmp.compare_eq_iff_eq]
      exact if_neg other
  | order => exact ⟨rfl, rfl⟩

/-- If only calls with one gate write a fact, its rules are those of the requirement kept for it; as
long as there was no such call, it has neither. -/
theorem rulesFor_ofHistory {history : List Registration}
    (only : ∀ x ∈ history, x.Concerns fact → ∃ p, x = .fact fact gate p) :
    (∃ p, (ofHistory history).requirements[fact]? = some p ∧
        (ofHistory history).rulesFor fact = factRules fact gate p) ∨
      ((∀ p, .fact fact gate p ∉ history) ∧ (ofHistory history).requirements[fact]? = none ∧
        (ofHistory history).rulesFor fact = []) := by
  induction history using List.reverseRecOn with
  | nil => exact .inr ⟨fun p => List.not_mem_nil, rfl, rfl⟩
  | append_singleton history x ih =>
      have before := ih fun y hy => only y (List.mem_append_left _ hy)
      have consistent : (ofHistory history).Consistent := Built.consistent ⟨history, rfl⟩
      rw [ofHistory_concat]
      -- a call that concerns the fact extends rules and requirement alike, and others leave both
      by_cases concerns : x.Concerns fact
      · obtain ⟨q, rfl⟩ := only x (List.mem_append_right _ (List.mem_singleton_self x)) concerns
        have known : (ofHistory history).rulesFor fact =
              factRules fact gate ((ofHistory history).requirements.getD fact default) ∨
            (ofHistory history).rulesFor fact = [] ∧
              ((ofHistory history).requirements.getD fact default).clauses = [] := by
          rw [Std.TreeMap.getD_eq_getD_getElem?]
          rcases before with ⟨p, kept, rules⟩ | ⟨-, kept, rules⟩
          · rw [kept]
            exact .inl rules
          · rw [kept]
            exact .inr ⟨rules, rfl⟩
        exact .inl ⟨_, requirements_defineFact _ fact gate q,
          consistent.rulesFor_defineFact known q⟩
      · obtain ⟨rules, kept⟩ := consistent.apply_of_not_concerns concerns
        rw [rules, kept]
        refine before.imp_right fun ⟨never, rest⟩ => ⟨fun p member => ?_, rest⟩
        cases List.mem_append.mp member with
        | inl old => exact never p old
        | inr new =>
            rw [← List.mem_singleton.mp new] at concerns
            exact concerns rfl

/-- Whether a fact is watched on a sheet: its gate is empty or on. -/
def IsWatched (gate : String) (sheet : Attributes) : Prop :=
  gate = "" ∨ truthy sheet[gate]? = true

theorem kind_of_mem_factRules {p : Prerequisite} {r : Rule} (h : r ∈ factRules fact gate p) :
    (r.IsSwitch ∨ r.IsTally) ∧ r.source = gate := by
  rw [factRules_eq, List.mem_append, List.mem_map] at h
  rcases h with gates | ⟨c, -, rfl⟩
  · split at gates
    · cases gates
    · rename_i named
      rw [List.mem_singleton.mp gates]
      exact ⟨.inl ⟨rfl, rfl, named⟩, rfl⟩
  · exact ⟨.inr (isTally_tally fact gate c), rfl⟩

theorem isCount_factRules {sheet : Attributes} (watched : IsWatched gate sheet)
    (p : Prerequisite) :
    IsCount (evaluateRules (factRules fact gate p) none sheet) (p.failing sheet).length := by
  have opened : ∀ r ∈ factRules fact gate p, r.IsSwitch → truthy sheet[r.source]? = true := by
    intro r hr isSwitch
    have source := (kind_of_mem_factRules hr).2
    rw [source]
    exact watched.resolve_left fun empty => isSwitch.2.2 (source.trans empty)
  have counted := isCount_evaluateRules (fun r hr => (kind_of_mem_factRules hr).1) opened
  have fires : (gate == "" || truthy (if gate == "" then none else sheet[gate]?)) = true := by
    cases watched with
    | inl eq =>
        obtain rfl := eq
        rfl
    | inr on => by_cases empty : gate = "" <;> simp [empty, on]
  have each : ∀ c, (tally fact gate c).reports sheet = !c.holds sheet := by
    intro c
    show ((gate == "" || truthy (if gate == "" then none else sheet[gate]?)) &&
      !([c].all fun c => c.holds sheet)) = _
    rw [fires, Bool.true_and, List.all_cons, List.all_nil, Bool.and_true]
  have total : (factRules fact gate p).countP (·.reports sheet) = (p.failing sheet).length := by
    have gates : (if gate = "" then [] else [switch fact gate]).countP (·.reports sheet) = 0 := by
      split
      · rfl
      · simp [switch, Rule.reports]
    rw [factRules_eq, List.countP_append, gates, Nat.zero_add, List.countP_map,
      Prerequisite.failing, ← List.countP_eq_length_filter]
    exact List.countP_congr fun c _ => by rw [Function.comp_apply, each]
  rwa [total] at counted

theorem evaluateRules_factRules_of_not_isWatched {sheet : Attributes}
    (off : ¬ IsWatched gate sheet) (p : Prerequisite) (raw : Option Value) :
    evaluateRules (factRules fact gate p) raw sheet = none := by
  obtain ⟨named, closed⟩ := not_or.mp off
  have gates : switch fact gate ∈ factRules fact gate p := by
    rw [factRules_eq, if_neg named]
    exact List.mem_append_left _ (List.mem_singleton_self _)
  have isSwitch : (switch fact gate).IsSwitch := ⟨rfl, rfl, named⟩
  refine evaluateRules_eq_none gates rfl ?_ raw
  rw [isSwitch.isOpen_eq]
  exact Bool.eq_false_iff.mpr closed

/-- Suppose that only calls with one gate write the rules of a fact or the requirement kept for it,
that no rules wait in a circle, and that the fact is not chosen. Then the fact is the count of the
clauses that fail on the computed sheet if its gate is empty or on there, and absent otherwise; so
it is violated exactly if it is watched and some clause fails. -/
theorem count_failing_of_ofHistory (history : List Registration) (fact gate : String)
    (only : ∀ x ∈ history, x.Concerns fact → ∃ p, x = .fact fact gate p)
    (registered : ∃ p, .fact fact gate p ∈ history) (acyclic : (ofHistory history).IsAcyclic)
    (selection : Selection) (unset : selection[fact]? = none) :
    ∃ p, (ofHistory history).requirements[fact]? = some p ∧
      ∃ sheet, (ofHistory history).evaluate selection = sheet ∧
        (IsWatched gate sheet →
          Attributes.number sheet fact = .count (p.failing sheet).length) ∧
        (¬ IsWatched gate sheet → sheet[fact]? = none) ∧
        (isFactKey fact = true →
          (fact ∈ sheet.violations ↔ IsWatched gate sheet ∧ p.failing sheet ≠ [])) := by
  rcases rulesFor_ofHistory only with ⟨p, kept, rules⟩ | ⟨never, -, -⟩
  · have consistent : (ofHistory history).Consistent := Built.consistent ⟨history, rfl⟩
    have value := consistent.getElem?_evaluate acyclic unset
    rw [rules] at value
    refine ⟨p, kept, _, rfl, fun watched => ?_, fun off => ?_, fun isFact => ?_⟩
    · rw [Attributes.number, value]
      exact (isCount_factRules watched p).numberOrZero_eq
    · rw [value]
      exact evaluateRules_factRules_of_not_isWatched off p none
    · rw [Attributes.mem_violations, and_iff_right isFact, value]
      by_cases watched : IsWatched gate ((ofHistory history).evaluate selection)
      · rw [(isCount_factRules watched p).truthy_iff, and_iff_right watched, Ne,
          List.length_eq_zero_iff]
      · rw [evaluateRules_factRules_of_not_isWatched watched p none]
        exact iff_of_false (by simp [truthy]) fun both => watched both.1
  · obtain ⟨p, member⟩ := registered
    exact absurd member (never p)

/-- A requirement that an attribute is at least one. -/
def asksFor (key : String) : Prerequisite := .single ⟨.key key, .compare .ge (.number 1)⟩

/-- A fact registered twice for an edge, with a requirement of its own each time. -/
def blockHistory : List Registration :=
  [.fact "validationNotes.blockEdge" "edges.Block" (asksFor "advances"),
    .fact "validationNotes.blockEdge" "edges.Block" (asksFor "size")]

theorem count_failing_blockHistory :
    (∀ x ∈ blockHistory, x.Concerns "validationNotes.blockEdge" →
      ∃ p, x = .fact "validationNotes.blockEdge" "edges.Block" p) ∧
    (ofHistory blockHistory).IsAcyclic ∧
    ∃ p, (ofHistory blockHistory).requirements["validationNotes.blockEdge"]? = some p ∧
      Attributes.number ((ofHistory blockHistory).evaluate {("edges.Block", .number 1)})
          "validationNotes.blockEdge" =
        .count (p.failing
          ((ofHistory blockHistory).evaluate {("edges.Block", .number 1)})).length := by
  have only : ∀ x ∈ blockHistory, x.Concerns "validationNotes.blockEdge" →
      ∃ p, x = .fact "validationNotes.blockEdge" "edges.Block" p := by
    simp [blockHistory, Registration.Concerns]
  have acyclic : (ofHistory blockHistory).IsAcyclic :=
    (Built.consistent ⟨_, rfl⟩).isAcyclic_of_rank (fun _ => 0) (by decide)
  have watched : IsWatched "edges.Block"
      ((ofHistory blockHistory).evaluate {("edges.Block", .number 1)}) :=
    .inr (by decide)
  obtain ⟨p, kept, sheet, rfl, counted, -⟩ := count_failing_of_ofHistory blockHistory
    "validationNotes.blockEdge" "edges.Block" only ⟨_, List.mem_cons_self⟩ acyclic
    {("edges.Block", .number 1)} (by decide)
  exact ⟨only, acyclic, p, kept, counted watched⟩

/-- A fact whose requirement is also extended by a call of its own. -/
def extendedHistory : List Registration :=
  [.fact "validationNotes.x" "" (asksFor "a"), .requirement "validationNotes.x" (asksFor "b")]

/-- A clause that a separate call adds to the requirement is not counted by the fact. -/
theorem count_lt_failing_extendedHistory :
    (ofHistory extendedHistory).IsAcyclic ∧
    (ofHistory extendedHistory).rulesFor "validationNotes.x" =
      factRules "validationNotes.x" "" (asksFor "a") ∧
    ∃ p, (ofHistory extendedHistory).requirements["validationNotes.x"]? = some p ∧
      (p.failing ((ofHistory extendedHistory).evaluate {})).length = 2 ∧
      Attributes.number ((ofHistory extendedHistory).evaluate {}) "validationNotes.x" = 1 := by
  have rules : (ofHistory extendedHistory).rulesFor "validationNotes.x" =
      factRules "validationNotes.x" "" (asksFor "a") := by
    have none : ({} : RuleGraph).rulesFor "validationNotes.x" = [] ∧
        (default : Prerequisite).clauses = [] := ⟨rfl, rfl⟩
    exact consistent_empty.rulesFor_defineFact (.inr none) (asksFor "a")
  have acyclic : (ofHistory extendedHistory).IsAcyclic :=
    (Built.consistent ⟨_, rfl⟩).isAcyclic_of_rank (fun _ => 0) (by decide)
  have failing : ((ofHistory extendedHistory).requirements["validationNotes.x"]?).any
      (fun p => (p.failing ((ofHistory extendedHistory).evaluate {})).length == 2) = true := by
    decide
  obtain ⟨p, kept, two⟩ := (Option.any_eq_true _ _).mp failing
  exact ⟨acyclic, rules, p, kept, beq_iff_eq.mp two, by decide⟩

end RuleGraph
end CharacterRules
