import CharacterRules.Proofs.Rule.Fact
import CharacterRules.Proofs.Ruleset.Growth

/-!
What a trait gives to a graph. Its registration does to the rules of the graph what registering a list of
rules does: those of its table, of its facts and of its notes, and the changes that the notes word. Most
of them have a key of the trait as their source: its choice, its feature or a note. What a race grants
comes from the choice of the race instead, a placeholder from the attributes that it reads, and a change
may come from a numbered part of a note.
-/

namespace CharacterRules

namespace RuleGraph

/-- Whether two graphs have the same rules at the same places. -/
structure EqualRules (g g' : RuleGraph) : Prop where
  rules : g'.rules = g.rules
  positions : g'.positions = g.positions

namespace EqualRules

variable {g g' g'' : RuleGraph}

theorem refl (g : RuleGraph) : EqualRules g g := ⟨rfl, rfl⟩

theorem trans (h : EqualRules g g') (h' : EqualRules g' g'') : EqualRules g g'' :=
  ⟨h'.rules.trans h.rules, h'.positions.trans h.positions⟩

theorem define (h : EqualRules g g') (r : Rule) : EqualRules (g.define r) (g'.define r) := by
  have known : g'.hasRule r = g.hasRule r := by
    simp only [hasRule, rulesFor, h.rules, h.positions]
  rw [RuleGraph.define, RuleGraph.define, known]
  split
  · exact h
  · constructor
    · simp only [h.rules]
    · simp only [h.rules, h.positions]

theorem defineAll (h : EqualRules g g') (rules : List Rule) :
    EqualRules (g.defineAll rules) (g'.defineAll rules) := by
  induction rules generalizing g g' with
  | nil => exact h
  | cons r rest ih => exact ih (h.define r)

theorem defineFact (h : EqualRules g g') (fact gate : String) (p : Prerequisite) :
    EqualRules (g.defineAll (factRules fact gate p)) (g'.defineFact fact gate p) :=
  (h.defineAll (factRules fact gate p)).trans ⟨rfl, rfl⟩

end EqualRules

theorem mem_rules_define {g : RuleGraph} {r : Rule} (known : r ∈ g.rules.toList) (s : Rule) :
    r ∈ (g.define s).rules.toList := by
  rw [rules_define]
  split
  · exact known
  · exact List.mem_append_left _ known

theorem mem_rules_defineAll {g : RuleGraph} {r : Rule} (known : r ∈ g.rules.toList)
    (rules : List Rule) : r ∈ (g.defineAll rules).rules.toList :=
  List.foldlRecOn (motive := fun g : RuleGraph => r ∈ g.rules.toList) rules _ known
    fun _ known s _ => mem_rules_define known s

/-- A rule that is registered stays so. -/
theorem Grows.mem_rules {g g' : RuleGraph} (h : Grows g g') {r : Rule} (known : r ∈ g.rules.toList) :
    r ∈ g'.rules.toList := by
  obtain ⟨history, rfl⟩ := h
  refine List.foldlRecOn (motive := fun g : RuleGraph => r ∈ g.rules.toList) history _ known
    fun g known x _ => ?_
  cases x with
  | rule s => exact mem_rules_define known s
  | note key text => exact known
  | requirement key p => exact known
  | fact key gate p => exact mem_rules_defineAll known (factRules key gate p)
  | order => exact known

end RuleGraph

theorem Note.equalRules_keepNotes (g : RuleGraph) (name : String) (notes : List (String × String)) :
    g.EqualRules (keepNotes g name notes) := by
  obtain ⟨kept, same⟩ := exists_keepNotes_eq g name notes
  rw [same]
  exact ⟨rfl, rfl⟩

namespace Trait

open RuleGraph Note

/-- The notes of a trait with their sections. -/
def sectionNotes (t : Trait) : List (String × String) := t.sections.zip t.notes

/-- The rules of the facts of a trait. -/
def factRules (t : Trait) : List Rule :=
  t.facts.flatMap fun (kind, p) => RuleGraph.factRules (t.factKey kind) t.selectedKey p

/-- The rules of the notes of a trait, whose changes are of attributes of a graph. -/
def noteRules (t : Trait) (names : TargetNames) (g : RuleGraph) : List Rule :=
  t.sectionNotes.flatMap (rulesOf standardPhrasings t.name) ++
    (changesOf standardPhrasings names g t.name t.sectionNotes).map PendingDelta.rule

/-- The rules that the registration of a trait gives to a graph, known there or not. -/
def given (t : Trait) (names : TargetNames) (g : RuleGraph) : List Rule :=
  t.tableRules ++ t.factRules ++
    (t.noteRules names (t.registerFacts (g.defineAll t.tableRules)) ++ t.noteValueRule?.toList)

variable (t : Trait) (names : TargetNames) (g : RuleGraph)

theorem equalRules_registerFacts : (g.defineAll t.factRules).EqualRules (t.registerFacts g) := by
  have each : ∀ (facts : List (String × Prerequisite)) {g g' : RuleGraph}, g.EqualRules g' →
      (g.defineAll (facts.flatMap fun (kind, p) =>
        RuleGraph.factRules (t.factKey kind) t.selectedKey p)).EqualRules
        (facts.foldl (fun g (kind, p) => g.defineFact (t.factKey kind) t.selectedKey p) g') := by
    intro facts
    induction facts with
    | nil => exact id
    | cons fact rest ih =>
        intro g g' same
        rw [List.flatMap_cons, RuleGraph.defineAll_append]
        exact ih (same.defineFact _ _ _)
  exact each t.facts (.refl g)

theorem equalRules_registerNotes :
    (g.defineAll (t.noteRules names g ++ t.noteValueRule?.toList)).EqualRules
      (t.registerNotes names g) := by
  rw [RuleGraph.defineAll_append, registerNotes]
  refine EqualRules.defineAll ?_ t.noteValueRule?.toList
  split
  · rename_i none
    have unnoted : t.sectionNotes = [] := by
      rw [sectionNotes, List.isEmpty_iff.mp none, List.zip_nil_left]
    rw [noteRules, unnoted]
    exact .refl g
  · rw [compileNotes_eq]
    exact equalRules_keepNotes _ _ _

/-- The registration of a trait does to the rules of a graph what registering one by one those that it
gives does. -/
theorem equalRules_register : (g.defineAll (t.given names g)).EqualRules (t.register names g) := by
  have facts := t.equalRules_registerFacts (g.defineAll t.tableRules)
  rw [← RuleGraph.defineAll_append] at facts
  rw [given, RuleGraph.defineAll_append, register]
  exact (facts.defineAll _).trans (t.equalRules_registerNotes names _)

/-- The rules of a trait that may have a source other than its choice, its feature and its notes. -/
inductive IsForeign (t : Trait) : Rule → Prop
  | grant {feature : String} (race : t.table = "races") (granted : feature ∈ t.name :: t.features) :
      IsForeign t (racialFeature t.name feature)
  | placeholder {note : String × String} {x : Part} {key : String} (noted : note ∈ t.sectionNotes)
      (computed : x ∈ partsOf standardPhrasings t.name note) (read : key ∈ x.formula.references) :
      IsForeign t ⟨partKey (noteKey note.1 t.name) x.number, key, .set, .expr x.formula⟩
  | change {note : String × String} {w : Wording} {mark : Char} {r : Rule}
      (noted : note ∈ t.sectionNotes) (worded : w ∈ wordingsOf standardPhrasings t.name note)
      (part : w.source = noteKey note.1 t.name ++ "." ++ String.singleton mark)
      (source : r.source = w.source) (op : r.op = w.op) : IsForeign t r

/-- Whether a key is the choice of a trait, its feature or one of its notes. -/
def IsOwnKey (t : Trait) (key : String) : Prop :=
  key = t.selectedKey ∨ key = t.featureKey ∨ ∃ category ∈ t.sections, key = noteKey category t.name

variable {t : Trait} {names : TargetNames} {g : RuleGraph} {r : Rule}

theorem isOwnKey_or_isForeign_of_mem_tableRules (h : r ∈ t.tableRules) :
    t.IsOwnKey r.source ∨ t.IsForeign r := by
  rw [tableRules] at h
  split at h
  · simp only [List.mem_cons, List.not_mem_nil, or_false] at h
    rcases h with rfl | rfl <;> exact .inl (.inl rfl)
  · simp only [List.mem_cons, List.not_mem_nil, or_false] at h
    rcases h with rfl | rfl <;> exact .inl (.inl rfl)
  · rename_i race
    obtain ⟨feature, granted, rfl⟩ := List.mem_map.mp h
    exact .inr (.grant race granted)
  · obtain rfl := List.mem_singleton.mp h
    exact .inl (.inl rfl)
  · obtain ⟨n, -, rfl⟩ := Option.map_eq_some_iff.mp (Option.mem_toList.mp h)
    exact .inl (.inl rfl)
  · cases h

theorem category_mem_sections {note : String × String} (noted : note ∈ t.sectionNotes) :
    note.1 ∈ t.sections := (List.of_mem_zip noted).1

theorem isOwnKey_or_isForeign_of_mem_rulesOf {note : String × String} (noted : note ∈ t.sectionNotes)
    (h : r ∈ rulesOf standardPhrasings t.name note) : t.IsOwnKey r.source ∨ t.IsForeign r := by
  rcases List.mem_cons.mp h with rfl | part
  · exact .inl (.inr (.inl rfl))
  · obtain ⟨x, computed, rule⟩ := List.mem_flatMap.mp part
    rcases List.mem_cons.mp rule with rfl | value
    · exact .inl (.inr (.inl rfl))
    · obtain ⟨key, listed, rfl⟩ := List.mem_map.mp value
      split at listed
      · obtain rfl := List.mem_singleton.mp listed
        exact .inl (.inr (.inl rfl))
      · have read : key ∈ x.formula.references := by
          have sorted := Std.TreeSet.mem_toList.mp listed
          exact List.contains_iff_mem.mp (Std.TreeSet.mem_ofList.mp sorted)
        exact .inr (.placeholder noted computed read)

/-- The source of a change is the feature, the note or a numbered part of the note. -/
theorem source_of_mem_wordingsOf {name : String} {note : String × String} {w : Wording}
    (h : w ∈ wordingsOf standardPhrasings name note) : w.source = "features." ++ name ∨
      w.source = noteKey note.1 name ∨
      ∃ mark, w.source = noteKey note.1 name ++ "." ++ String.singleton mark := by
  have amount : ∀ (next : Nat) (text : AmountText),
      let source := ({ contextOf name note.1 note.2 with next }.amount text).1
      source = "features." ++ name ∨ source = noteKey note.1 name ∨
        ∃ mark, source = noteKey note.1 name ++ "." ++ String.singleton mark := by
    intro next text
    unfold Context.amount
    split
    · exact .inl rfl
    · exact .inr (.inl rfl)
    · rename_i mark _
      exact .inr (.inr ⟨mark, rfl⟩)
  obtain ⟨next, ⟨d, rfl⟩ | ⟨text, counted, rfl⟩⟩ := exists_of_mem_wordingsOf h
  · exact amount next d.amount
  · exact amount next text

theorem isOwnKey_or_isForeign_of_mem_changesOf {d : PendingDelta}
    (h : d ∈ changesOf standardPhrasings names g t.name t.sectionNotes) :
    t.IsOwnKey d.source ∨ t.IsForeign d.rule := by
  obtain ⟨note, noted, w, worded, -, source, op⟩ := exists_of_mem_changesOf h
  rcases source_of_mem_wordingsOf worded with feature | own | ⟨mark, part⟩
  · exact .inl (.inr (.inl (source.symm.trans feature)))
  · exact .inl (.inr (.inr ⟨note.1, category_mem_sections noted, source.symm.trans own⟩))
  · exact .inr (.change noted worded part source.symm op.symm)

/-- A rule that a trait gives has a key of the trait as its source, unless it is one of three kinds. -/
theorem isOwnKey_or_isForeign_of_mem_given (h : r ∈ t.given names g) :
    t.IsOwnKey r.source ∨ t.IsForeign r := by
  simp only [given, noteRules, List.mem_append] at h
  rcases h with (table | fact) | (note | change) | value
  · exact isOwnKey_or_isForeign_of_mem_tableRules table
  · obtain ⟨⟨kind, p⟩, -, rule⟩ := List.mem_flatMap.mp fact
    exact .inl (.inl (kind_of_mem_factRules rule).2)
  · obtain ⟨note, noted, rule⟩ := List.mem_flatMap.mp note
    exact isOwnKey_or_isForeign_of_mem_rulesOf noted rule
  · obtain ⟨d, changed, rfl⟩ := List.mem_map.mp change
    exact isOwnKey_or_isForeign_of_mem_changesOf changed
  · have feature : r.source = t.featureKey := by
      rw [noteValueRule?] at value
      split at value
      · obtain rfl := Option.some.inj (Option.mem_toList.mp value)
        rfl
      · cases value
    exact .inl (.inr (.inl feature))

/-- What a trait gives is then registered, or something equal is. -/
theorem exists_mem_rules_register (built : g.Built) (h : r ∈ t.given names g) :
    ∃ s ∈ (t.register names g).rules.toList, s = r ∨ (s == r) = true := by
  obtain ⟨s, known, same⟩ := built.consistent.exists_mem_rulesFor_defineAll h rfl
  have member := ((built.consistent.defineAll _).mem_rulesFor.mp known).1
  rw [← (t.equalRules_register names g).rules] at member
  exact ⟨s, member, same⟩

end Trait
end CharacterRules
