import CharacterRules.CommandLine.Arguments
import CharacterRules.CommandLine.Files
import CharacterRules.CommandLine.Table
import CharacterRules.Generation.Character
import CharacterRules.Json.Selection
import CharacterRules.Ruleset.Sample

/-!
The commands. Each computes what is printed and what is written from the contents of the files that
it reads.
-/

namespace CharacterRules.CommandLine

/-- Why a command fails. -/
inductive Failure where
  | cannotRead (path : String) (fault : FileFault)
  | cannotWrite (path : String) (fault : FileFault)
  /-- A file is no JSON document of the right shape. -/
  | malformed (path : String)
  | malformedCatalog (path : String)
  | content (path : Option String) (e : ContentError)
  | issues (errors warnings : Nat)
  | unmet (path : String) (count : Nat)
  | category (e : ContentError)
  | inputWithoutCategory
  | noTrait (name : String)
  /-- The trimming of a budget did not end. -/
  | endless

def Failure.message : Failure → String
  | .cannotRead path fault => "cannot read " ++ path ++ ": " ++ fault.message
  | .cannotWrite path fault => "cannot write " ++ path ++ ": " ++ fault.message
  | .malformed path => path ++ ": malformed selection"
  | .malformedCatalog path => path ++ ": invalid catalog: malformed document"
  | .content path e => path.elim "" (· ++ ": ") ++ e.message
  | .issues errors warnings =>
    toString errors ++ " error(s), " ++ toString warnings ++ " warning(s)"
  | .unmet path count => path ++ " has " ++ toString count ++ " unmet validation fact(s)"
  | .category e => e.message
  | .inputWithoutCategory => "--input needs --category; a full character starts empty"
  | .noTrait name => "no trait named '" ++ name ++ "'"
  | .endless => "a budget cannot be trimmed"

/-- What a command prints and writes. -/
structure Outcome where
  lines : List String := []
  remarks : List String := []
  /-- A file to write, which is reported once it is written. -/
  output : Option (String × String) := none
  failure : Option Failure := none

namespace Outcome

/-- The outcome of a command that fails before it prints. -/
def failed (f : Failure) : Outcome := { failure := some f }

/-- The outcome after an attempt to write the file. -/
def written (o : Outcome) (result : Except FileFault Unit) : Outcome :=
  match o.output, result with
  | none, _ => o
  | some (path, _), .ok () => { o with lines := o.lines ++ ["  Wrote " ++ path] }
  | some (path, _), .error fault => { o with failure := some (.cannotWrite path fault) }

def text (o : Outcome) : String := String.join (o.lines.map (· ++ "\n"))

/-- The text of the remarks, with that of the failure behind them. -/
def remarkText (o : Outcome) : String :=
  String.join (o.remarks.map (· ++ "\n")) ++
    o.failure.elim "" fun f => "error: " ++ f.message ++ "\n"

def exitCode (o : Outcome) : Nat := if o.failure.isNone then 0 else 1

end Outcome

/-- How files are read. -/
abbrev Reader := String → Except FileFault String

/-- The ruleset of the catalog in a file, or of the sample catalog. -/
def loadRuleset (read : Reader) : Option String → Except Failure Ruleset
  | none => (Ruleset.ofCatalog .sample).mapError (.content none)
  | some path => do
    let text ← (read path).mapError (.cannotRead path)
    match Catalog.ofJson? text with
    | none => throw (.malformedCatalog path)
    | some c => (Ruleset.ofCatalog c).mapError (.content (some path))

def loadSelection (read : Reader) (path : String) : Except Failure Selection := do
  let text ← (read path).mapError (.cannotRead path)
  match Attributes.ofJson? text with
  | none => throw (.malformed path)
  | some s => return s

/-- Prints a selection, or writes it to a file. -/
def deliver (s : Selection) (output : Option String) (remarks : List String) : Outcome :=
  match output with
  | none => { lines := [s.toJsonLines], remarks }
  | some path => { output := some (path, s.toJsonLines ++ "\n"), remarks }

/-- The command that reports the issues of the catalog. -/
def check (r : Ruleset) : Outcome :=
  let issues := r.catalog.issues
  let errors := (issues.filter fun i => i.severity = .error).length
  let warnings := issues.length - errors
  let lines := issues.map fun i => "  " ++ i.display
  if 0 < errors then { lines, failure := some (.issues errors warnings) }
  else
    { lines := lines ++ ["  All checks passed.",
        "  " ++ toString r.catalog.tableNames.length ++ " tables, " ++
          toString r.graph.rules.size ++ " rules, " ++ toString warnings ++ " warning(s)"] }

/-- The statistics shown with abilities. -/
def shownStatistics : List String :=
  ["pace", "parry", "toughness", "armor", "bennies", "powerPoints", "powerCount"]

/-- The choices shown, with their titles. -/
def shownChoices : List (String × Category) :=
  [("Edges", .edges), ("Hindrances", .hindrances), ("Powers", .powers), ("Weapons", .weapons),
    ("Armor", .armor)]

/-- The text of the roll of an ability; without one, its die. -/
def rollText (a : Ability) (sheet : Snapshot) : String :=
  (sheet[a.roll]?.map Value.display).getD ("d" ++ (Attributes.number sheet a.die).positional)

/-- The table of abilities and statistics. -/
def traitTable (c : Catalog) (sheet : Snapshot) : TextTable :=
  let attributes := (c.names "attributes").map fun name =>
    [name, rollText (.ofAttribute name) sheet]
  let skills := (c.names "skills").filterMap fun name =>
    let a := Ability.ofSkill name
    if sheet.contains a.die then some [name, rollText a sheet] else none
  let statistics := shownStatistics.filterMap fun key =>
    sheet[key]?.map fun v => [key, v.display]
  ⟨["Trait", "Value"], attributes ++ skills ++ statistics⟩

def budgetTable (sheet : Snapshot) : TextTable :=
  let shown (key : String) : String := (Attributes.number sheet key).positional
  ⟨["Budget", "Spent", "Available"],
    Budget.all.map fun b => [b.points, shown b.spent, shown b.points]⟩

/-- The names of the choices of a category that are turned on. -/
def chosenNames (category : Category) (s : Selection) : List String :=
  let start := category.toggleStart?.getD ""
  ((Attributes.keysFrom s start).filter fun key => truthy s[key]?).filterMap
    (Text.afterStart? · start)

/-- The command that shows the statistics of a character. -/
def describe (r : Ruleset) (file : String) (s : Selection) : Outcome :=
  let sheet := r.evaluate s
  let details := ["race", "gender", "concept", "era"].filterMap fun key =>
    s[key]?.map fun v => key ++ ": " ++ v.display
  let choices := shownChoices.filterMap fun (title, category) =>
    match chosenNames category s with
    | [] => none
    | names => some ("  " ++ title ++ ": " ++ Text.join ", " names)
  let notes := match r.graph.renderedNotes sheet with
    | [] => []
    | notes => ["", "  Notes"] ++ notes.map fun (key, text) => "    " ++ text ++ " (" ++ key ++ ")"
  let closing := match Attributes.violations sheet with
    | [] => "  No unmet prerequisites."
    | facts => "  " ++ toString facts.length ++
        " unmet prerequisite(s); run `statforge validate` for details"
  { lines :=
      ["  " ++ (s["name"]?.map Value.display).getD file] ++
      (if details.isEmpty then [] else ["  " ++ Text.join ", " details]) ++ [""] ++
      (traitTable r.catalog sheet).lines ++ (budgetTable sheet).lines ++ choices ++ notes ++
      ["", closing] }

/-- The name of a fact without its section. -/
def factName (fact : String) : String :=
  match fact.toList.dropWhile (· != '.') with
  | [] => fact
  | _ :: rest => String.ofList rest

/-- What a violated fact says: the points of a budget, or the clauses that are not met. -/
def unmetText (r : Ruleset) (sheet : Snapshot) (fact : String) : String :=
  match Budget.ofFact? fact, r.graph.requirements[fact]? with
  | some b, _ => (Attributes.number sheet b.spent).positional ++ " spent of " ++
      (Attributes.number sheet b.points).positional
  | none, some requirement => Text.join " and " ((requirement.failing sheet).map Clause.display)
  | none, none => ""

/-- Whether a fact makes a character invalid. -/
def isValidation (fact : String) : Bool := Text.startsWith fact "validationNotes."

/-- The command that lists the violated facts of a character. -/
def validate (r : Ruleset) (file : String) (s : Selection) : Outcome :=
  let sheet := r.evaluate s
  match Attributes.violations sheet with
  | [] => { lines := ["  " ++ file ++ " is valid."] }
  | facts =>
    let rows := facts.map fun fact =>
      [factName fact, if isValidation fact then "validation" else "sanity",
        textOrEmpty sheet[fact]?, unmetText r sheet fact]
    let errors := (facts.filter isValidation).length
    let warnings := facts.length - errors
    { lines := (TextTable.mk ["Fact", "Kind", "Value", "Unmet"] rows).lines ++
        ["", "  " ++ toString errors ++ " validation fact(s), " ++ toString warnings ++
          " sanity fact(s)"]
      failure := if 0 < errors then some (.unmet file errors) else none }

/-- The command that repairs a character. -/
def repair (r : Ruleset) (fuel : Nat) (s : Selection) (seed : UInt64) (output : Option String) :
    Outcome :=
  match r.makeValid fuel s (.ofSeed seed) with
  | none => .failed .endless
  | some (repaired, _) =>
    let before := r.violationCount s
    let after := r.violationCount repaired
    deliver repaired output
      (if 0 < after then
        ["  " ++ toString after ++ " unmet prerequisite(s) remain after repair (" ++
          toString before ++ " before)"]
      else [])

/-- The command that generates a character, or fills one category. -/
def generate (read : Reader) (r : Ruleset) (fuel : Nat) (category input : Option String)
    (seed : UInt64) : Except Failure Selection :=
  match category, input with
  | some name, input => do
    let category ← (Category.ofText name).mapError Failure.category
    let s ← match input with
      | some path => loadSelection read path
      | none => pure {}
    return (r.randomize category s (.ofSeed seed)).1
  | none, some _ => throw .inputWithoutCategory
  | none, none =>
    match r.randomCharacter fuel (.ofSeed seed) with
    | some (s, _) => return s
    | none => throw .endless

/-- The keys that the rules of a trait have as sources: its choices, its feature and its notes. -/
def traitSources (name : String) (tables noteKeys : List String) : List String :=
  ("features." ++ name) :: tables.map (Trait.selectionKey · name) ++ noteKeys

/-- The command that shows the rules of a trait. -/
def notes (r : Ruleset) (name : String) : Outcome :=
  match Trait.knownTables.filter fun table => r.catalog.contains table name with
  | [] => .failed (.noTrait name)
  | tables =>
    let sections := tables.flatMap fun table =>
      ((r.catalog.entry? table name).map fun e => e.values "Section").getD []
    let noteKeys := (Std.TreeSet.ofList (sections.map (Note.noteKey · name))).toList
    let sources := traitSources name tables noteKeys
    let facts := (Std.TreeSet.ofList ((r.graph.rules.toList.filter fun rule =>
      sources.contains rule.source && isFactKey rule.target).map (·.target))).toList
    let noteLines := noteKeys.filterMap fun key =>
      r.graph.notes[key]?.map fun text => "    " ++ key ++ ": \"" ++ text ++ "\""
    let rules := r.graph.rules.toList.filter fun rule =>
      sources.contains rule.source || facts.contains rule.target
    { lines :=
        ["  " ++ name ++ " (" ++ Text.join ", " tables ++ ")"] ++
        facts.map (fun fact => "    " ++ fact ++
          (r.graph.requirements[fact]?.elim "" fun p => ": " ++ p.display)) ++
        (if noteLines.isEmpty then [] else ["", "  Notes"] ++ noteLines) ++
        ["", "  Rules"] ++
        (if rules.isEmpty then ["    none"] else rules.map fun rule => "    " ++ rule.display) ++
        ["", "  " ++ toString rules.length ++ " rule(s)"] }

def perform (read : Reader) (fuel : Nat) (r : Ruleset) : Action → Except Failure Outcome
  | .check => return check r
  | .sheet file => return describe r file (← loadSelection read file)
  | .validate file => return validate r file (← loadSelection read file)
  | .repair file seed output => return repair r fuel (← loadSelection read file) seed output
  | .random category input seed output => do
    return deliver (← generate read r fuel category input seed) output []
  | .notes name => return notes r name

/-- The outcome of an action. -/
def outcome (read : Reader) (fuel : Nat) (catalog : Option String) (action : Action) : Outcome :=
  match loadRuleset read catalog >>= fun r => perform read fuel r action with
  | .ok o => o
  | .error f => .failed f

/-- The files that an action reads. -/
def readPaths (catalog : Option String) (action : Action) : List String :=
  catalog.toList ++
    match action with
    | .sheet file | .validate file | .repair file _ _ => [file]
    | .random _ (some input) _ _ => [input]
    | _ => []

/-- The line that tells the version. -/
def versionLine (command : Option String) : String :=
  "statforge" ++ command.elim "" ("-" ++ ·) ++ " 0.1.0"

/-- The line that tells the commands. -/
def usageLine : String := "Usage: statforge " ++ Text.join "|" (commands.map (·.name))

/-- What a run leaves behind. -/
structure RunResult where
  exitCode : Nat
  text : String
  remarks : String
  workspace : Workspace

/-- Runs the program in a directory. -/
def run (fuel : Nat) (w : Workspace) (arguments : List String) : RunResult :=
  match request arguments with
  | .misuse => ⟨2, "", usageLine ++ "\n", w⟩
  | .help => ⟨0, usageLine ++ "\n", "", w⟩
  | .version command => ⟨0, versionLine command ++ "\n", "", w⟩
  | .run catalog action =>
    let o := outcome w.read fuel catalog action
    match o.output with
    | none => ⟨o.exitCode, o.text, o.remarkText, w⟩
    | some (path, content) =>
      match w.write path content with
      | .ok after =>
        let o := o.written (.ok ())
        ⟨o.exitCode, o.text, o.remarkText, after⟩
      | .error fault =>
        let o := o.written (.error fault)
        ⟨o.exitCode, o.text, o.remarkText, w⟩

end CharacterRules.CommandLine
