import CharacterRules.Catalog.Issue
import CharacterRules.Note.Render
import CharacterRules.Rule.Evaluation
import CharacterRules.Ruleset.Base
import CharacterRules.Ruleset.Config
import CharacterRules.Trait.Registration

/-!
Rulesets: catalogs compiled into rules. The shared rules come first, then the traits in the order of
their tables; an entry that cannot be read is left out and reported.
-/

namespace CharacterRules

/-- The active notes of a character with their texts, in the order of their keys. -/
def RuleGraph.renderedNotes (g : RuleGraph) (sheet : Snapshot) : List (String × String) :=
  g.notes.toList.filterMap fun (key, text) => (Note.render text key sheet).map (key, ·)

/-- A catalog with its rules. -/
structure Ruleset where
  catalog : Catalog
  graph : RuleGraph
  names : TargetNames
  /-- The issues of the entries that were left out. -/
  issues : List Issue
  repair : RepairConfig := {}
  generation : GenerationConfig := {}

namespace Ruleset

/-- Registers an entry; one that cannot be registered adds an issue. -/
def addEntry (names : TargetNames) (g : RuleGraph) (issues : List Issue)
    (table name : String) (e : Entry) : RuleGraph × List Issue :=
  match (Trait.registration names table name e).outcome g with
  | (.ok _, after) => (after, issues)
  | (.error fault, after) => (after, issues ++ [.ofError table name fault])

/-- Registers all entries of the tables that the rules know. -/
def registerTraits (names : TargetNames) (g : RuleGraph) (c : Catalog) :
    RuleGraph × List Issue :=
  c.knownEntries.foldl
    (fun (g, issues) (table, name, e) => addEntry names g issues table name e) (g, [])

/-- Compiles a catalog. Only shared rules that cannot be read are an error. -/
def ofCatalog (c : Catalog) : Except ContentError Ruleset := do
  let g ← RuleGraph.defineTexts {} (baseRules c)
  let names := targetNames c
  let (g, issues) := registerTraits names g c
  return { catalog := c, graph := g.withOrder, names, issues }

def evaluate (r : Ruleset) (selection : Selection) : Snapshot := r.graph.evaluate selection

/-- The names of the features that are the source of rules onto a target. -/
def featureSources (g : RuleGraph) (target : String) : List String :=
  (g.rulesFor target).filterMap fun r => Text.afterStart? r.source "features."

/-- The edges of the catalog that raise power points, by themselves or by a note. -/
def powerPointEdges (r : Ruleset) : List String :=
  let found := (r.graph.rulesFor "powerPoints").flatMap fun rule =>
    match Text.afterStart? rule.source "features." with
    | some name => [name]
    -- the rule of a note has the note as its source, and the note has the feature
    | none => featureSources r.graph rule.source
  (Std.TreeSet.ofList found).toList.filter (r.catalog.contains "edges")

end Ruleset
end CharacterRules
