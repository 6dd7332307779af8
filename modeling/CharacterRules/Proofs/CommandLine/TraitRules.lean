import CharacterRules.CommandLine.Command
import CharacterRules.Proofs.Ruleset.SharedFact
import CharacterRules.Proofs.Trait.Given

/-!
The rules shown for a trait. They are told from the compiled graph afterwards: those with a key of the
trait as their source, and all that write a fact which one of those writes. A rule that the trait gives is
shown exactly if it is found so. What a race grants never is, nor are, but for facts, the values of
placeholders that other attributes bring and the changes by numbered parts of a note.
-/

namespace CharacterRules

open RuleGraph

namespace Ruleset

theorem names_of_ofCatalog {c : Catalog} {r : Ruleset} (compiled : ofCatalog c = .ok r) :
    r.names = targetNames c := by
  obtain ⟨g, -, rest⟩ := exists_of_bind_eq_ok compiled
  rw [← Except.ok.inj rest]

/-- A graph in which traits are registered one after another. -/
def registerAll (names : TargetNames) (g : RuleGraph) (traits : List Trait) : RuleGraph :=
  traits.foldl (fun g t => t.register names g) g

theorem grows_registerAll (names : TargetNames) (g : RuleGraph) (traits : List Trait) :
    Grows g (registerAll names g traits) :=
  .foldl (fun g t => t.grows_register names g) traits g

theorem registerAll_append (names : TargetNames) (g : RuleGraph) (earlier later : List Trait) (t : Trait) :
    registerAll names g (earlier ++ t :: later) =
      registerAll names (t.register names (registerAll names g earlier)) later := List.foldl_append

/-- The entries of a catalog add what its traits register. -/
theorem fst_registerTraits (names : TargetNames) (g : RuleGraph) (c : Catalog) :
    (registerTraits names g c).1 = registerAll names g c.traits := by
  have entries : ∀ (all : List (String × String × Entry)) (g : RuleGraph) (issues : List Issue),
      (all.foldl (fun state x => addEntry names state.1 state.2 x.1 x.2.1 x.2.2) (g, issues)).1 =
        registerAll names g
          (all.filterMap fun x => (Trait.ofEntry x.1 x.2.1 x.2.2).toOption) := by
    intro all
    induction all with
    | nil => exact fun g issues => rfl
    | cons entry rest ih =>
        obtain ⟨table, name, e⟩ := entry
        intro g issues
        rw [List.foldl_cons, List.filterMap_cons]
        dsimp only
        rw [addEntry_eq]
        cases Trait.ofEntry table name e with
        | error fault => exact ih g _
        | ok t => exact ih (t.register names g) issues
  exact entries c.knownEntries g []

end Ruleset

theorem Catalog.mem_knownEntries {c : Catalog} {table name : String} {e : Entry} :
    (table, name, e) ∈ c.knownEntries ↔ table ∈ Trait.knownTables ∧ c.entry? table name = some e := by
  simp only [knownEntries, List.mem_flatMap, List.mem_map, Prod.exists, Prod.mk.injEq,
    Std.TreeMap.mem_toList_iff_getElem?_eq_some]
  constructor
  · rintro ⟨other, known, n, f, found, rfl, rfl, rfl⟩
    exact ⟨known, found⟩
  · rintro ⟨known, found⟩
    exact ⟨table, known, name, e, found, rfl, rfl, rfl⟩

namespace CommandLine

variable (r : Ruleset) (name : String)

/-- The tables that have an entry of a name. -/
def tablesOf : List String := Trait.knownTables.filter fun table => r.catalog.contains table name

/-- The sections of the notes of the entries of a name. -/
def sectionsOf : List String :=
  (tablesOf r name).flatMap fun table =>
    ((r.catalog.entry? table name).map fun e => e.values "Section").getD []

/-- The keys that a rule may have as its source to be shown for a name. -/
def sourcesOf : List String :=
  traitSources name (tablesOf r name)
    (Std.TreeSet.ofList ((sectionsOf r name).map (Note.noteKey · name))).toList

/-- The facts shown for a name. -/
def shownFacts : List String :=
  (Std.TreeSet.ofList ((r.graph.rules.toList.filter fun rule =>
    (sourcesOf r name).contains rule.source && isFactKey rule.target).map (·.target))).toList

/-- The rules shown for a name. -/
def shownRules : List Rule :=
  r.graph.rules.toList.filter fun rule =>
    (sourcesOf r name).contains rule.source || (shownFacts r name).contains rule.target

def ruleLines (rules : List Rule) : List String :=
  if rules.isEmpty then ["    none"] else rules.map fun rule => "    " ++ rule.display

/-- Of a name that has an entry, the rules are printed behind what else there is, and then counted. -/
theorem exists_notes_eq (known : tablesOf r name ≠ []) : ∃ heading, notes r name =
    { lines := heading ++ ["", "  Rules"] ++ ruleLines (shownRules r name) ++
        ["", "  " ++ toString (shownRules r name).length ++ " rule(s)"] } := by
  obtain ⟨table, others, tables⟩ := List.exists_cons_of_ne_nil known
  simp only [shownRules, shownFacts, sourcesOf, sectionsOf, ruleLines, tables]
  have filtered : (Trait.knownTables.filter fun table => r.catalog.contains table name) =
      table :: others := tables
  rw [notes, filtered]
  exact ⟨_, rfl⟩

variable {r : Ruleset} {name : String}

theorem mem_shownFacts {fact : String} : fact ∈ shownFacts r name ↔
    ∃ rule ∈ r.graph.rules.toList, rule.source ∈ sourcesOf r name ∧ isFactKey fact = true ∧
      rule.target = fact := by
  rw [shownFacts, Std.TreeSet.mem_toList, Std.TreeSet.mem_ofList, List.contains_iff_mem, List.mem_map]
  simp only [List.mem_filter, Bool.and_eq_true, List.contains_iff_mem]
  constructor
  · rintro ⟨rule, ⟨known, source, kind⟩, rfl⟩
    exact ⟨rule, known, source, kind, rfl⟩
  · rintro ⟨rule, known, source, kind, rfl⟩
    exact ⟨rule, ⟨known, source, kind⟩, rfl⟩

theorem mem_shownRules {rule : Rule} : rule ∈ shownRules r name ↔ rule ∈ r.graph.rules.toList ∧
    (rule.source ∈ sourcesOf r name ∨ rule.target ∈ shownFacts r name) := by
  rw [shownRules, List.mem_filter, Bool.or_eq_true, List.contains_iff_mem, List.contains_iff_mem]

theorem exists_entry_of_mem_traits {t : Trait} (member : t ∈ r.catalog.traits) :
    t.table ∈ tablesOf r t.name ∧
      ∃ e, r.catalog.entry? t.table t.name = some e ∧ t.sections = e.values "Section" := by
  obtain ⟨table, name, e, entry, read⟩ := Catalog.mem_traits.mp member
  have reading := Trait.isReading_of_ofEntry read
  obtain rfl := reading.table_eq
  obtain rfl := reading.name_eq
  obtain ⟨known, found⟩ := Catalog.mem_knownEntries.mp entry
  refine ⟨List.mem_filter.mpr ⟨known, ?_⟩, e, found, reading.sections⟩
  rw [Catalog.contains, found]
  rfl

/-- The keys of a trait of the catalog are among those that are looked for. -/
theorem mem_sourcesOf_of_isOwnKey {t : Trait} (member : t ∈ r.catalog.traits) {key : String}
    (own : t.IsOwnKey key) : key ∈ sourcesOf r t.name := by
  obtain ⟨listed, e, found, sections⟩ := exists_entry_of_mem_traits member
  rw [sourcesOf, traitSources, List.mem_append, List.mem_cons]
  rcases own with rfl | rfl | ⟨category, categories, rfl⟩
  · exact .inl (.inr (List.mem_map_of_mem listed))
  · exact .inl (.inl rfl)
  · have shown : category ∈ sectionsOf r t.name := by
      rw [sections] at categories
      refine List.mem_flatMap.mpr ⟨t.table, listed, ?_⟩
      rw [found]
      exact categories
    refine .inr (Std.TreeSet.mem_toList.mpr (Std.TreeSet.mem_ofList.mpr ?_))
    exact List.contains_iff_mem.mpr (List.mem_map_of_mem shown)

/-- A rule of a trait that is not found by its source or by its target. -/
structure IsOverlooked (r : Ruleset) (t : Trait) (rule : Rule) : Prop where
  foreign : t.IsForeign rule
  source : rule.source ∉ sourcesOf r t.name
  target : rule.target ∉ shownFacts r t.name

/-- The rules shown for a name are those of the compiled graph that are found by their source or target.
For each trait of that name they hold what the trait gives to the graph that is there when its entry is
registered, or something equal, except for the rules of foreign source that are overlooked. -/
theorem exists_mem_shownRules_iff {c : Catalog} {r : Ruleset}
    (compiled : Ruleset.ofCatalog c = .ok r) {earlier later : List Trait} {t : Trait}
    (traits : c.traits = earlier ++ t :: later) :
    (∃ heading, notes r t.name =
      { lines := heading ++ ["", "  Rules"] ++ ruleLines (shownRules r t.name) ++
          ["", "  " ++ toString (shownRules r t.name).length ++ " rule(s)"] }) ∧
    ∃ shared, defineTexts {} (Ruleset.baseRules c) = .ok shared ∧
      let before := Ruleset.registerAll r.names shared earlier
      (t.register r.names before).rules = (before.defineAll (t.given r.names before)).rules ∧
      ∀ rule ∈ t.given r.names before,
        (∃ s ∈ shownRules r t.name, s = rule ∨ (s == rule) = true) ↔ ¬ IsOverlooked r t rule := by
  obtain ⟨shared, base, graph⟩ := Ruleset.graph_of_ofCatalog compiled
  have member : t ∈ r.catalog.traits := by
    rw [Ruleset.catalog_of_ofCatalog compiled, traits]
    exact List.mem_append_right _ List.mem_cons_self
  have known : tablesOf r t.name ≠ [] :=
    List.ne_nil_of_mem (exists_entry_of_mem_traits member).1
  refine ⟨exists_notes_eq r t.name known, shared, base, (t.equalRules_register _ _).rules, ?_⟩
  intro rule given
  have built : (Ruleset.registerAll r.names shared earlier).Built :=
    ((Ruleset.grows_defineTexts base).1.trans (Ruleset.grows_registerAll _ _ _)).built built_empty
  have grows : Grows (t.register r.names (Ruleset.registerAll r.names shared earlier)) r.graph := by
    rw [graph, Ruleset.fst_registerTraits, traits, ← Ruleset.names_of_ofCatalog compiled,
      Ruleset.registerAll_append]
    exact (Ruleset.grows_registerAll r.names _ later).trans (.apply _ .order)
  have keys : ∀ {s : Rule}, s = rule ∨ (s == rule) = true →
      s.source = rule.source ∧ s.target = rule.target := by
    rintro s (rfl | equal)
    · exact ⟨rfl, rfl⟩
    · obtain ⟨target, source, -⟩ := Rule.beq_iff.mp equal
      exact ⟨source, target⟩
  constructor
  · rintro ⟨s, shown, same⟩ overlooked
    rcases (mem_shownRules.mp shown).2 with source | target
    · exact overlooked.source ((keys same).1 ▸ source)
    · exact overlooked.target ((keys same).2 ▸ target)
  · intro seen
    obtain ⟨s, registered, same⟩ := Trait.exists_mem_rules_register built given
    refine ⟨s, mem_shownRules.mpr ⟨grows.mem_rules registered, ?_⟩, same⟩
    rw [(keys same).1, (keys same).2]
    by_contra hidden
    obtain ⟨source, target⟩ := not_or.mp hidden
    rcases Trait.isOwnKey_or_isForeign_of_mem_given given with own | foreign
    · exact source (mem_sourcesOf_of_isOwnKey member own)
    · exact seen ⟨foreign, source, target⟩

def blockEdge : Catalog := .ofSource {("edges",
  {("Block", "Require=\"advances >= 4\" Section=combat Note=\"+1 Parry/+%V Pace\" NoteValue=2")})}

/-- Whatever the edge gives is among the eight rules that are shown for it. -/
theorem exists_shownRules_blockEdge : ∃ r t shared, Ruleset.ofCatalog blockEdge = .ok r ∧
    blockEdge.traits = [] ++ t :: [] ∧ defineTexts {} (Ruleset.baseRules blockEdge) = .ok shared ∧
    (shownRules r t.name).length = 8 ∧
    ∀ rule ∈ t.given r.names shared, ∃ s ∈ shownRules r t.name, s = rule ∨ (s == rule) = true := by
  have fit : Ruleset.KeysFit blockEdge := by decide +kernel
  have compiled := Ruleset.ofCatalog_eq_of_keysFit fit
  generalize shown : Ruleset.assembledOf blockEdge = r at compiled
  obtain ⟨one, all⟩ : blockEdge.traits.length = 1 ∧ ∀ t ∈ blockEdge.traits, t.table = "edges" ∧
      (shownRules r t.name).length = 8 ∧
      ∀ note ∈ t.sectionNotes, (Note.partsOf Note.standardPhrasings t.name note).length = 0 ∧
        ∀ w ∈ Note.wordingsOf Note.standardPhrasings t.name note, w.source ∈ sourcesOf r t.name := by
    subst shown
    decide +kernel
  obtain ⟨t, traits⟩ := List.length_eq_one_iff.mp one
  obtain ⟨table, count, own⟩ := all t (traits ▸ List.mem_cons_self)
  have single : blockEdge.traits = [] ++ t :: [] := traits
  obtain ⟨-, shared, base, -, shows⟩ := exists_mem_shownRules_iff compiled single
  refine ⟨r, t, shared, compiled, single, base, count, fun rule given => (shows rule given).mpr ?_⟩
  rintro ⟨foreign, source, -⟩
  cases foreign with
  | grant race => exact absurd (table.symm.trans race) (by decide)
  | placeholder noted computed =>
      rw [List.length_eq_zero_iff.mp (own _ noted).1] at computed
      cases computed
  | change noted worded part same => exact source (same ▸ (own _ noted).2 _ worded)

/-- All keys that are looked for have a point. -/
theorem point_mem_of_mem_sourcesOf {key : String} (h : key ∈ sourcesOf r name) : '.' ∈ key.toList := by
  rw [sourcesOf, traitSources, List.mem_append, List.mem_cons] at h
  rcases h with (rfl | chosen) | noted
  · simp
  · obtain ⟨table, -, rfl⟩ := List.mem_map.mp chosen
    unfold Trait.selectionKey
    split <;> simp
  · have sorted := Std.TreeSet.mem_ofList.mp (Std.TreeSet.mem_toList.mp noted)
    obtain ⟨category, -, rfl⟩ := List.mem_map.mp (List.contains_iff_mem.mp sorted)
    simp [Note.noteKey]

/-- What a race grants is never shown for it. -/
theorem isOverlooked_racialFeature (r : Ruleset) {t : Trait} (race : t.table = "races")
    {feature : String} (granted : feature ∈ t.name :: t.features) :
    IsOverlooked r t (Trait.racialFeature t.name feature) where
  foreign := .grant race granted
  source found := by
    have point : '.' ∈ "race".toList := point_mem_of_mem_sourcesOf found
    exact absurd point (by decide)
  target found := by
    obtain ⟨-, -, -, kind, -⟩ := mem_shownFacts.mp found
    rw [Trait.racialFeature, isFactKey] at kind
    simp [factSections, Text.startsWith, Text.dropStart?] at kind

/-- An elf with keen senses. -/
def keenElf : Catalog := .ofSource {("races", {("Elf", "Features=Keen")})}

/-- The rule by which the race grants the feature is registered, and no rule is shown for the race. -/
theorem exists_notes_keenElf : ∃ r t, Ruleset.ofCatalog keenElf = .ok r ∧ keenElf.traits = [t] ∧
    t.name = "Elf" ∧ (∀ names g, Trait.racialFeature "Elf" "Keen" ∈ t.given names g) ∧
    (∃ s ∈ r.graph.rules.toList, (s == Trait.racialFeature "Elf" "Keen") = true) ∧
    shownRules r "Elf" = [] ∧
    (notes r "Elf").lines = ["  Elf (races)", "", "  Rules", "    none", "", "  0 rule(s)"] := by
  have fit : Ruleset.KeysFit keenElf := by decide +kernel
  have compiled := Ruleset.ofCatalog_eq_of_keysFit fit
  generalize shown : Ruleset.assembledOf keenElf = r at compiled
  obtain ⟨one, all, registered, none, lines⟩ : keenElf.traits.length = 1 ∧
      (∀ t ∈ keenElf.traits, t.name = "Elf" ∧ t.table = "races" ∧ t.features = ["Keen"]) ∧
      (∃ s ∈ r.graph.rules.toList, (s == Trait.racialFeature "Elf" "Keen") = true) ∧
      (shownRules r "Elf").length = 0 ∧
      (notes r "Elf").lines = ["  Elf (races)", "", "  Rules", "    none", "", "  0 rule(s)"] := by
    subst shown
    decide +kernel
  obtain ⟨t, traits⟩ := List.length_eq_one_iff.mp one
  obtain ⟨named, race, features⟩ := all t (traits ▸ List.mem_cons_self)
  refine ⟨r, t, compiled, traits, named, fun names g => ?_, registered,
    List.length_eq_zero_iff.mp none, lines⟩
  have rules : t.tableRules = (t.name :: t.features).map (Trait.racialFeature t.name) := by
    simp only [Trait.tableRules, race]
  rw [Trait.given, rules, named, features]
  refine List.mem_append_left _ (List.mem_append_left _ (List.mem_map_of_mem ?_))
  exact .tail "Elf" List.mem_cons_self

end CommandLine
end CharacterRules
