import CharacterRules.Proofs.Ruleset.BaseRule
import CharacterRules.Proofs.Trait.Watch
import CharacterRules.Repair.Basic

/-!
The facts of a compiled catalog about what its traits require. Traits whose names give the same key
share their fact. A trait that is chosen and whose requirement fails is then reported exactly if all
traits that share the fact are chosen, so one that is not chosen hides what the other lacks.
-/

namespace CharacterRules

open RuleGraph

/-- The traits of a catalog: the entries of known tables that can be read. -/
def Catalog.traits (c : Catalog) : List Trait :=
  c.knownEntries.filterMap fun (table, name, e) => (Trait.ofEntry table name e).toOption

theorem Catalog.mem_traits {c : Catalog} {t : Trait} : t ∈ c.traits ↔
    ∃ table name e, (table, name, e) ∈ c.knownEntries ∧ Trait.ofEntry table name e = .ok t := by
  simp only [traits, List.mem_filterMap, Prod.exists, toOption_eq_some_iff]

namespace Ruleset

theorem spares_defineTexts {fact : String} {texts : List RuleText}
    (others : ∀ x ∈ texts, x.target ≠ fact) {g g' : RuleGraph}
    (h : g.defineTexts texts = .ok g') : Spares fact g g' := by
  induction texts generalizing g with
  | nil =>
      obtain rfl := Except.ok.inj h
      exact .refl fact g
  | cons x rest ih =>
      obtain ⟨r, target, later⟩ := exists_of_defineTexts_cons h
      have onto : ∀ s ∈ [r], s.target ≠ fact := by
        intro s hs
        rw [List.mem_singleton.mp hs, target]
        exact others x List.mem_cons_self
      exact (Spares.defineAll g onto).trans
        (ih (fun y hy => others y (List.mem_cons_of_mem x hy)) later)

section

variable {fact : String} (isFact : IsRequirementKey fact)

include isFact

theorem target_ne_of_mem_attributeRules {name : String} {x : RuleText}
    (h : x ∈ attributeRules name) : x.target ≠ fact := by
  simp only [attributeRules, List.mem_cons, List.not_mem_nil, or_false] at h
  rcases h with rfl | rfl | rfl | rfl | rfl
  · exact isFact.ne_append _ (show 3 ≤ "Step".toList.length by decide) (by decide)
  · exact isFact.ne_append _ (show 3 ≤ "Step".toList.length by decide) (by decide)
  · exact isFact.ne_lowercase name
  · exact isFact.ne_of_head (show "attributePointsAllocated".toList.head? ≠ some 'v' by decide)
  · exact isFact.ne_append _ (show 3 ≤ "Roll".toList.length by decide) (by decide)

theorem target_ne_of_mem_skillRules {c : Catalog} {name : String} {x : RuleText}
    (h : x ∈ skillRules c name) : x.target ≠ fact := by
  have start : ∀ start : String, start.toList.head? = some 's' → start ++ name ≠ fact :=
    fun start head => isFact.ne_append_of_head head (by decide) name
  have points : "skillPointsAllocated" ≠ fact := isFact.ne_of_head (by decide)
  simp only [skillRules, List.mem_append, List.mem_cons, List.not_mem_nil, or_false,
    Option.mem_toList, Option.map_eq_some_iff] at h
  rcases h with (rfl | rfl | rfl | rfl) | ⟨linked, -, rfl⟩
  · exact start "skillStep." (by decide)
  · exact start "skills." (by decide)
  · exact points
  · exact start "skillRoll." (by decide)
  · exact points

/-- No rule that all characters share is onto a fact about requirements. -/
theorem target_ne_of_mem_baseRules (c : Catalog) {x : RuleText} (h : x ∈ baseRules c) :
    x.target ≠ fact := by
  simp only [baseRules, List.mem_append, List.mem_flatMap] at h
  rcases h with (((values | ⟨name, -, ability⟩) | ⟨name, -, skill⟩) | derived) | budgets
  · have heads : ∀ x ∈ baseValues.map fun entry => RuleText.constant entry.1 entry.2,
        x.target.toList.head? ≠ some 'v' := by decide
    exact isFact.ne_of_head (heads x values)
  · exact target_ne_of_mem_attributeRules isFact ability
  · exact target_ne_of_mem_skillRules isFact skill
  · have heads : ∀ x ∈ derivedRules, x.target.toList.head? ≠ some 'v' := by decide
    exact isFact.ne_of_head (heads x derived)
  · have ends : ∀ x ∈ Budget.all.map fun b => RuleText.constant b.fact b.formula,
        keyEnding x.target ∉ factEndings := by decide
    rintro rfl
    exact ends x budgets isFact.keyEnding_mem

/-- Entries add the rules of the traits that they are read as; the others add an issue. -/
theorem adds_addEntries (names : TargetNames) (entries : List (String × String × Entry))
    (g : RuleGraph) (issues : List Issue) :
    Adds fact ((entries.filterMap fun (table, name, e) =>
        (Trait.ofEntry table name e).toOption).flatMap (·.watches fact)) g
      (entries.foldl (fun (g, issues) (table, name, e) => addEntry names g issues table name e)
        (g, issues)).1 := by
  induction entries generalizing g issues with
  | nil => exact .of_spares (.refl fact g)
  | cons entry rest ih =>
      obtain ⟨table, name, e⟩ := entry
      rw [List.foldl_cons, List.filterMap_cons]
      dsimp only
      rw [addEntry_eq]
      cases read : Trait.ofEntry table name e with
      | error fault => exact ih g (issues ++ [.ofError table name fault])
      | ok t =>
          have paired := (Trait.isReading_of_ofEntry read).paired
          exact (t.adds_register isFact paired names g).trans (ih (t.register names g) issues)

theorem adds_registerTraits (names : TargetNames) (g : RuleGraph) (c : Catalog) :
    Adds fact (c.traits.flatMap (·.watches fact)) g (registerTraits names g c).1 :=
  adds_addEntries isFact names c.knownEntries g []

/-- The rules onto a fact of a compiled catalog are those of the traits that have it, unless a note
is kept under its key. -/
theorem watched_of_ofCatalog {c : Catalog} {r : Ruleset} (compiled : Ruleset.ofCatalog c = .ok r)
    (unnoted : r.graph.notes[fact]? = none) :
    r.graph.Consistent ∧ Watched fact (c.traits.flatMap (·.watches fact)) r.graph := by
  obtain ⟨g, base, graph⟩ := graph_of_ofCatalog compiled
  rw [graph] at unnoted ⊢
  have shared := spares_defineTexts (fun x hx => target_ne_of_mem_baseRules isFact c hx) base
  have steps := (Adds.of_spares shared).trans (adds_registerTraits isFact (targetNames c) g c)
  have nothing : Watched fact [] {} :=
    ⟨fun r hr => absurd hr List.not_mem_nil, fun w hw => absurd hw List.not_mem_nil⟩
  have watched := steps.watched consistent_empty unnoted [] nothing
  exact ⟨(steps.consistent consistent_empty).apply .order, watched.withOrder⟩

end

/-- Suppose that a catalog compiles without circles, that the selection sets no fact, that some
clause of what an entry requires fails on the computed sheet, and that no note is kept under the key
of its fact. Then the fact is violated exactly if every trait of the catalog that has a fact of this key is
chosen, be it the one of the entry or another of the same key. -/
theorem mem_violations_iff_all_selected (c : Catalog) (r : Ruleset)
    (compiled : Ruleset.ofCatalog c = .ok r) (acyclic : r.graph.IsAcyclic) (table name : String)
    (e : Entry) (entry : (table, name, e) ∈ c.knownEntries) (t : Trait)
    (read : Trait.ofEntry table name e = .ok t) (p : Prerequisite) (requires : t.requires = some p)
    (selection : Selection) (unset : ∀ key, isFactKey key = true → selection[key]? = none)
    (failing : ∃ clause ∈ p.clauses, clause.holds (r.evaluate selection) = false)
    (unnoted : r.graph.notes[t.factKey "validation"]? = none) :
    t.factKey "validation" ∈ r.violations selection ↔
      ∀ other ∈ c.traits, ∀ kind q, (kind, q) ∈ other.facts →
        other.factKey kind = t.factKey "validation" →
        truthy (r.evaluate selection)[other.selectedKey]? = true := by
  have isFact : IsRequirementKey (t.factKey "validation") := ⟨t.name, t.table, rfl⟩
  obtain ⟨consistent, watched⟩ := watched_of_ofCatalog isFact compiled unnoted
  have value : (r.evaluate selection)[t.factKey "validation"]? =
      evaluateRules (r.graph.rulesFor (t.factKey "validation")) none (r.evaluate selection) :=
    consistent.getElem?_evaluate acyclic (unset _ isFact.isFactKey)
  have named : ∀ w ∈ c.traits.flatMap (·.watches (t.factKey "validation")), w.1 ≠ "" := by
    intro w hw
    obtain ⟨other, -, watches⟩ := List.mem_flatMap.mp hw
    obtain ⟨kind, -, -, gate⟩ := Trait.mem_watches.mp watches
    rw [gate]
    exact Trait.ne_empty_selectionKey other.table other.name
  have reported : ("validation", p) ∈ t.facts := by
    simp [Trait.facts, requires]
  have own : (t.selectedKey, p) ∈ c.traits.flatMap (·.watches (t.factKey "validation")) := by
    refine List.mem_flatMap.mpr ⟨t, Catalog.mem_traits.mpr ⟨table, name, e, entry, read⟩, ?_⟩
    exact Trait.mem_watches.mpr ⟨"validation", reported, rfl, rfl⟩
  have gates := watched.truthy_iff named ⟨_, own, failing⟩
  rw [violations, Attributes.mem_violations, and_iff_right isFact.isFactKey, value, gates]
  constructor
  · intro all other member kind q fact same
    exact all (other.selectedKey, q) (List.mem_flatMap.mpr
      ⟨other, member, Trait.mem_watches.mpr ⟨kind, fact, same, rfl⟩⟩)
  · intro all w hw
    obtain ⟨other, member, watches⟩ := List.mem_flatMap.mp hw
    obtain ⟨kind, fact, same, gate⟩ := Trait.mem_watches.mp watches
    rw [gate]
    exact all other member kind w.2 fact same

/-- Two edges whose names give the same key, with one requirement. -/
def quickDraws : Catalog :=
  .ofSource {("edges", {("Quick Draw", "Require=\"agility >= 8\""),
    ("Quick-Draw", "Require=\"agility >= 8\"")})}

/-- The first of the two edges. -/
def oneQuickDraw : Selection := {("edges.Quick Draw", .number 1)}

/-- Both edges. -/
def bothQuickDraws : Selection := {("edges.Quick Draw", .number 1), ("edges.Quick-Draw", .number 1)}

/-- What the rules compiled from the two edges do with the requirement of the first. -/
def HidesQuickDraw (r : Ruleset) (t : Trait) (p : Prerequisite) : Prop :=
  (∀ rule ∈ r.graph.rules.toList, rule.formula.patterns = [] ∧
    ∀ key ∈ rule.keys, r.graph.hasTarget key = true →
      r.graph.evaluationOrder.idxOf key < r.graph.evaluationOrder.idxOf rule.target) ∧
  r.graph.notes[t.factKey "validation"]? = none ∧
  (∀ s ∈ [oneQuickDraw, bothQuickDraws], ∃ clause ∈ p.clauses,
    clause.holds (r.evaluate s) = false) ∧
  truthy (r.evaluate oneQuickDraw)[t.selectedKey]? = true ∧
  t.factKey "validation" ∉ r.violations oneQuickDraw ∧
  ∀ other ∈ quickDraws.traits, truthy (r.evaluate bothQuickDraws)[other.selectedKey]? = true

instance (r : Ruleset) (t : Trait) (p : Prerequisite) : Decidable (HidesQuickDraw r t p) := by
  unfold HidesQuickDraw
  infer_instance

theorem exists_hidesQuickDraw : ∃ r e t p, ofCatalog quickDraws = .ok r ∧
    ("edges", "Quick Draw", e) ∈ quickDraws.knownEntries ∧
    Trait.ofEntry "edges" "Quick Draw" e = .ok t ∧ t.requires = some p ∧ HidesQuickDraw r t p := by
  have fit : KeysFit quickDraws := by decide +kernel
  have found : quickDraws.knownEntries.any (fun (table, name, e) =>
      decide (table = "edges") && decide (name = "Quick Draw") &&
        (Trait.ofEntry table name e).toOption.any fun t =>
          t.requires.any fun p => decide (HidesQuickDraw (assembledOf quickDraws) t p)) = true := by
    decide +kernel
  simp only [Option.any_eq_true, List.any_eq_true, toOption_eq_some_iff, Prod.exists,
    Bool.and_eq_true, decide_eq_true_eq] at found
  obtain ⟨_, _, e, entry, ⟨rfl, rfl⟩, t, read, p, requires, hides⟩ := found
  exact ⟨_, e, t, p, ofCatalog_eq_of_keysFit fit, entry, read, requires, hides⟩

theorem isAcyclic_of_hidesQuickDraw {r : Ruleset} {t : Trait} {p : Prerequisite}
    (compiled : ofCatalog quickDraws = .ok r) (h : HidesQuickDraw r t p) :
    r.graph.IsAcyclic := by
  have isFact : IsRequirementKey (t.factKey "validation") := ⟨t.name, t.table, rfl⟩
  exact (watched_of_ofCatalog isFact compiled h.2.1).1.isAcyclic_of_rank _ h.1

theorem getElem?_eq_none_of_keys {s : Selection} (h : ∀ key ∈ s.keys, isFactKey key = false)
    (key : String) (isFact : isFactKey key = true) : s[key]? = none := by
  by_contra present
  have member : key ∈ s.keys := by
    rw [Std.TreeMap.mem_keys, Std.TreeMap.mem_iff_isSome_getElem?]
    exact Option.isSome_iff_ne_none.mpr present
  rw [h key member] at isFact
  cases isFact

/-- With both edges chosen the requirement is reported. -/
theorem mem_violations_bothQuickDraws : ∃ r t, ofCatalog quickDraws = .ok r ∧
    r.graph.IsAcyclic ∧ t ∈ quickDraws.traits ∧
    t.factKey "validation" ∈ r.violations bothQuickDraws := by
  obtain ⟨r, e, t, p, compiled, entry, read, requires, hides⟩ := exists_hidesQuickDraw
  have acyclic := isAcyclic_of_hidesQuickDraw compiled hides
  have unset := getElem?_eq_none_of_keys
    (show ∀ key ∈ bothQuickDraws.keys, isFactKey key = false by decide)
  obtain ⟨-, unnoted, failing, -, -, all⟩ := hides
  refine ⟨r, t, compiled, acyclic, Catalog.mem_traits.mpr ⟨_, _, e, entry, read⟩, ?_⟩
  rw [mem_violations_iff_all_selected quickDraws r compiled acyclic "edges" "Quick Draw" e entry t
    read p requires bothQuickDraws unset (failing _ (by simp)) unnoted]
  exact fun other member _ _ _ _ => all other member

/-- With only one of them chosen the requirement fails and is not reported. -/
theorem not_mem_violations_oneQuickDraw : ∃ r e t p, ofCatalog quickDraws = .ok r ∧
    r.graph.IsAcyclic ∧ ("edges", "Quick Draw", e) ∈ quickDraws.knownEntries ∧
    Trait.ofEntry "edges" "Quick Draw" e = .ok t ∧ t.requires = some p ∧
    (∀ key, isFactKey key = true → oneQuickDraw[key]? = none) ∧
    truthy (r.evaluate oneQuickDraw)[t.selectedKey]? = true ∧
    (∃ clause ∈ p.clauses, clause.holds (r.evaluate oneQuickDraw) = false) ∧
    t.factKey "validation" ∉ r.violations oneQuickDraw := by
  obtain ⟨r, e, t, p, compiled, entry, read, requires, hides⟩ := exists_hidesQuickDraw
  have acyclic := isAcyclic_of_hidesQuickDraw compiled hides
  have unset := getElem?_eq_none_of_keys
    (show ∀ key ∈ oneQuickDraw.keys, isFactKey key = false by decide)
  obtain ⟨-, -, failing, selected, hidden, -⟩ := hides
  exact ⟨r, e, t, p, compiled, acyclic, entry, read, requires, unset, selected,
    failing _ (by simp), hidden⟩

end Ruleset
end CharacterRules
