import CharacterRules.Proofs.Formula.Literal
import CharacterRules.Proofs.Note.Outline
import Mathlib.Data.List.Basic

/-!
Compiling a trait again. What its text alone says is registered already, so only merged changes can
be new. They are if a phrase names something now that it did not name before, such as an attribute
that the trait itself has brought in, or if an amount is not-a-number, which equals nothing.
-/

namespace CharacterRules.Note

/-- Whether the number of an amount is not-a-number. -/
def Amount.isNaN : Amount → Bool
  | .literal n => n.isNaN
  | .scaled k => k.isNaN

theorem PendingDelta.beq_rule_self {d : PendingDelta} (h : d.amount.isNaN = false) :
    (d.rule == d.rule) = true := by
  refine Rule.beq_iff.mpr ⟨rfl, rfl, rfl, ?_⟩
  rw [rule, formula]
  cases amount : d.amount with
  | literal n =>
      rw [amount] at h
      exact Number.beq_self_iff.mpr h
  | scaled k =>
      rw [amount] at h
      have same : (k == k) = true := Number.beq_self_iff.mpr h
      dsimp only
      split
      · rfl
      · show Expr.equals _ _ = true
        simp only [Expr.equals, BEq.rfl, Bool.true_and]
        exact same

theorem beq_self_of_mem_rulesOf {phrasings : List Phrasing} {name : String}
    {note : String × String} {r : Rule} (h : r ∈ rulesOf phrasings name note) :
    (r == r) = true := by
  refine Rule.beq_iff.mpr ⟨rfl, rfl, rfl, ?_⟩
  cases List.mem_cons.mp h with
  | inl own =>
      obtain rfl := own
      rfl
  | inr part =>
      obtain ⟨x, computed, member⟩ := List.mem_flatMap.mp part
      cases List.mem_cons.mp member with
      | inl own =>
          obtain rfl := own
          rfl
      | inr later =>
          obtain ⟨source, -, rfl⟩ := List.mem_map.mp later
          exact Formula.beq_self_of_parse (parse_of_mem_partsOf computed)

/-- The phrases that the notes of a trait word changes of. -/
def phrasesOf (phrasings : List Phrasing) (name : String) (notes : List (String × String)) :
    List String :=
  (notes.flatMap (wordingsOf phrasings name)).filterMap fun w =>
    match w.place with
    | .fixed _ => none
    | .named phrase => some phrase

theorem changesOf_congr (phrasings : List Phrasing) (names : TargetNames) {g g' : RuleGraph}
    (name : String) {notes : List (String × String)}
    (same : ∀ phrase ∈ phrasesOf phrasings name notes,
      names.canonicalize g' phrase = names.canonicalize g phrase) :
    changesOf phrasings names g' name notes = changesOf phrasings names g name notes := by
  refine congrArg (mergeAll []) (List.filterMap_congr fun w member => ?_)
  rw [Wording.pending?, Wording.pending?]
  cases place : w.place with
  | fixed key => rfl
  | named phrase =>
      have worded : phrase ∈ phrasesOf phrasings name notes :=
        List.mem_filterMap.mpr ⟨w, member, by rw [place]⟩
      rw [Place.key?, Place.key?, same phrase worded]

section

variable (phrasings : List Phrasing) {g : RuleGraph} (built : g.Built) (names : TargetNames)
  (name : String) (notes : List (String × String))

include built

/-- The rules that notes register at once, and a change whose amount is a number, are known after
the compilation. -/
theorem hasRule_compileNotes {r : Rule}
    (given : r ∈ notes.flatMap (rulesOf phrasings name) ++
      (changesOf phrasings names g name notes).map PendingDelta.rule)
    (self : (r == r) = true) :
    (compileNotes phrasings g names name notes).hasRule r = true := by
  rw [compileNotes_eq, hasRule_keepNotes]
  exact built.consistent.hasRule_defineAll given self

/-- The second compilation registers the rules of its merged changes and nothing else. -/
theorem rules_compileNotes_again {g' : RuleGraph}
    (compiled : compileNotes phrasings g names name notes = g') :
    (compileNotes phrasings g' names name notes).rules =
      (g'.defineAll ((changesOf phrasings names g' name notes).map PendingDelta.rule)).rules := by
  have known : ∀ r ∈ notes.flatMap (rulesOf phrasings name), g'.hasRule r = true := by
    intro r member
    obtain ⟨note, -, own⟩ := List.mem_flatMap.mp member
    rw [← compiled]
    exact hasRule_compileNotes phrasings built names name notes (List.mem_append_left _ member)
      (beq_self_of_mem_rulesOf own)
  rw [compileNotes_eq, rules_keepNotes, RuleGraph.defineAll_append,
    RuleGraph.defineAll_of_known known]

omit built in
theorem canonicalize_compileNotes {phrase target : String}
    (named : names.canonicalize g phrase = some target) :
    names.canonicalize (compileNotes phrasings g names name notes) phrase = some target := by
  refine names.canonicalize_mono (fun key written => ?_) named
  rw [compileNotes_eq, hasTarget_keepNotes]
  exact RuleGraph.hasTarget_defineAll_of_hasTarget written _

end

/-- Compiling a trait again succeeds and registers nothing, if and only if an equal rule is there for
each of its merged changes. That is so if no phrase of its notes names something that it did not
name before the first compilation, and no merged amount is not-a-number. -/
theorem compileFeature_again (phrasings : List Phrasing) (g : RuleGraph) (built : g.Built)
    (names : TargetNames) (name : String) (sections notes : List String) {g' : RuleGraph}
    (compiled : compileFeature phrasings g names name sections notes = .ok g') :
    ∃ g'', compileFeature phrasings g' names name sections notes = .ok g'' ∧
      (g''.rules = g'.rules ↔
        ∀ d ∈ changesOf phrasings names g' name (sections.zip notes), g'.hasRule d.rule = true) ∧
      ((∀ phrase ∈ phrasesOf phrasings name (sections.zip notes),
          names.canonicalize g phrase = none → names.canonicalize g' phrase = none) →
        (∀ d ∈ changesOf phrasings names g name (sections.zip notes), d.amount.isNaN = false) →
        g''.rules = g'.rules) := by
  rw [compileFeature] at compiled ⊢
  split at compiled
  · cases compiled
  · rename_i paired
    rw [if_neg paired]
    generalize sections.zip notes = all at compiled ⊢
    have first := Except.ok.inj compiled
    have again := rules_compileNotes_again phrasings built names name all first
    have unchanged : (compileNotes phrasings g' names name all).rules = g'.rules ↔
        ∀ d ∈ changesOf phrasings names g' name all, g'.hasRule d.rule = true := by
      rw [again, RuleGraph.rules_defineAll_eq_iff, List.forall_mem_map]
    refine ⟨_, rfl, unchanged, fun stable numbers => unchanged.mpr ?_⟩
    have same : ∀ phrase ∈ phrasesOf phrasings name all,
        names.canonicalize g' phrase = names.canonicalize g phrase := by
      intro phrase worded
      cases named : names.canonicalize g phrase with
      | none => exact stable phrase worded named
      | some target => exact first ▸ canonicalize_compileNotes phrasings names name all named
    intro d changed
    rw [changesOf_congr phrasings names name same] at changed
    rw [← first]
    exact hasRule_compileNotes phrasings built names name all
      (List.mem_append_right _ (List.mem_map_of_mem changed))
      (PendingDelta.beq_rule_self (numbers d changed))

def strengthName : TargetNames := ({} : TargetNames).addAttribute "Strength"

/-- The rules of a trait that changes an attribute, computes a part from it, and counts powers. -/
def brawnyGraph : RuleGraph :=
  compileNotes standardPhrasings {} strengthName "Brawny"
    [("combat", "+1 Strength/+%{strength / 2} Strength step"), ("arcana", "3 powers")]

theorem compileFeature_brawnyGraph : RuleGraph.Built {} ∧
    compileFeature standardPhrasings {} strengthName "Brawny" ["combat", "arcana"]
      ["+1 Strength/+%{strength / 2} Strength step", "3 powers"] = .ok brawnyGraph ∧
    brawnyGraph.rules.size = 7 ∧
    ∃ g, compileFeature standardPhrasings brawnyGraph strengthName "Brawny" ["combat", "arcana"]
      ["+1 Strength/+%{strength / 2} Strength step", "3 powers"] = .ok g ∧
      g.rules = brawnyGraph.rules := by
  have compiled : compileFeature standardPhrasings {} strengthName "Brawny" ["combat", "arcana"]
      ["+1 Strength/+%{strength / 2} Strength step", "3 powers"] = .ok brawnyGraph := rfl
  obtain ⟨g, again, -, same⟩ := compileFeature_again standardPhrasings {} RuleGraph.built_empty
    strengthName "Brawny" ["combat", "arcana"]
    ["+1 Strength/+%{strength / 2} Strength step", "3 powers"] compiled
  exact ⟨RuleGraph.built_empty, compiled, by decide +kernel, g, again,
    same (by decide +kernel) (by decide +kernel)⟩

/-- The rules of a trait that changes the modifier of an attribute in two wordings. The second one
names the modifier only once a rule writes it. -/
def brawlerGraph : RuleGraph :=
  compileNotes standardPhrasings {} strengthName "Brawler"
    [("combat", "+1 Strength/+2 Strength Modifier")]

/-- Compiled again, the trait changes the modifier by both clauses, which is a new rule. -/
theorem compileFeature_brawlerGraph :
    compileFeature standardPhrasings {} strengthName "Brawler" ["combat"]
      ["+1 Strength/+2 Strength Modifier"] = .ok brawlerGraph ∧
    ∃ g, compileFeature standardPhrasings brawlerGraph strengthName "Brawler" ["combat"]
      ["+1 Strength/+2 Strength Modifier"] = .ok g ∧
      g.rules.size = brawlerGraph.rules.size + 1 := by
  exact ⟨rfl, _, rfl, by decide +kernel⟩

end CharacterRules.Note
