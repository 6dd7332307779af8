import CharacterRules.Note.Compiler
import CharacterRules.Trait.Basic

/-!
The rules of traits: the features and points that come with a trait, the facts that report what it
asks for, and its notes. What a trait registers as a whole is `Trait.register`; an entry is
registered step by step.
-/

namespace CharacterRules

/-- Steps that change a graph until one of them fails. What was done before that stays. -/
abbrev RegisterM := ExceptT ContentError (StateM RuleGraph)

namespace RegisterM

/-- How the steps end, and the graph behind them. -/
def outcome {α : Type} (steps : RegisterM α) (g : RuleGraph) :
    Except ContentError α × RuleGraph :=
  (ExceptT.run steps).run g

/-- A change of the graph that may fail before it does anything. -/
def change (f : RuleGraph → Except ContentError RuleGraph) : RegisterM Unit :=
  ExceptT.mk fun g =>
    match f g with
    | .ok after => (.ok (), after)
    | .error fault => (.error fault, g)

def rule (target source op : String) (formula : Option String) : RegisterM Unit :=
  change fun g => g.defineText target source op formula

def fact (kind name gate : String) (tests : List String) : RegisterM Unit :=
  change fun g => g.defineFactText kind name gate tests

end RegisterM

namespace Trait

/-- A key that takes over the choice of a trait. -/
def passed (t : Trait) (target : String) (op : Operator) : Rule :=
  ⟨target, t.selectedKey, op, .passThrough⟩

/-- A constant that a trait contributes. -/
def constant (t : Trait) (target : String) (op : Operator) (n : Number) : Rule :=
  ⟨target, t.selectedKey, op, .literal (.number n)⟩

/-- The rule by which a race grants a feature. -/
def racialFeature (race feature : String) : Rule :=
  ⟨"features." ++ feature, "race", .max,
    .expr (.binary .eq (.ident "source") (.literal (.text race)))⟩

/-- The rules of a trait by its table: features, points and armor. -/
def tableRules (t : Trait) : List Rule :=
  match t.table with
  | "edges" => [t.passed t.featureKey .set, t.passed "edgesAllocated" .add]
  | "hindrances" =>
    [t.passed t.featureKey .set, t.constant "hindrancePoints" .add (if t.isMajor then 2 else 1)]
  | "races" => (t.name :: t.features).map (racialFeature t.name)
  | "powers" => [t.passed "powersAllocated" .add]
  | "armors" => (t.armor.map (t.constant "armor" .max)).toList
  | _ => []

/-- A requirement that an attribute reaches a number, which is read from its text. -/
def atLeast (key : String) (n : Number) : Prerequisite :=
  .single ⟨.key key, .compare .ge (Prerequisite.literal n.display.toList)⟩

/-- The advances that a trait asks for, if any: only powers do, and none is not asked for. -/
def rank? (t : Trait) : Option Prerequisite :=
  if t.table == "powers" then (t.advances.filter fun n => Number.lt 0 n).map (atLeast "advances")
  else none

/-- The strength that a trait asks for, if any: only gear does. -/
def strength? (t : Trait) : Option Prerequisite :=
  if t.table == "weapons" || t.table == "armors" then t.minStrength.map (atLeast "strength")
  else none

/-- The kinds of facts of a trait with what they report, in the order of their registration. -/
def facts (t : Trait) : List (String × Prerequisite) :=
  [("validation", t.rank?), ("sanity", t.strength?), ("validation", t.requires),
    ("sanity", t.implies)].filterMap fun (kind, p) => p.map (kind, ·)

/-- The key of the fact of a kind that a trait has. -/
def factKey (t : Trait) (kind : String) : String :=
  RuleGraph.factKey kind (Note.attributeKey t.name ++ factSuffix t.table)

/-- Registers the facts of a trait, which its choice turns on. -/
def registerFacts (t : Trait) (g : RuleGraph) : RuleGraph :=
  t.facts.foldl (fun g (kind, p) => g.defineFact (t.factKey kind) t.selectedKey p) g

/-- The rule that computes the value of the first note. -/
def noteValueRule? (t : Trait) : Option Rule :=
  match t.sections, t.noteValue with
  | category :: _, some formula => some ⟨Note.noteKey category t.name, t.featureKey, .set, formula⟩
  | _, _ => none

/-- Registers the notes of a trait. -/
def registerNotes (t : Trait) (names : TargetNames) (g : RuleGraph) : RuleGraph :=
  let g :=
    if t.sections.isEmpty then g
    else Note.compileNotes Note.standardPhrasings g names t.name (t.sections.zip t.notes)
  g.defineAll t.noteValueRule?.toList

def register (t : Trait) (names : TargetNames) (g : RuleGraph) : RuleGraph :=
  t.registerNotes names (t.registerFacts (g.defineAll t.tableRules))

/-- Reports an attribute that is below a number, if there is one. -/
def reportBelow (kind fact gate key : String) : Option Number → RegisterM Unit
  | none => pure ()
  | some n => RegisterM.fact kind fact gate [key ++ " >= " ++ n.display]

/-- Reports what a field of requirements asks for, if it has values. -/
def reportUnmet (kind fact gate : String) (tests : List String) : RegisterM Unit :=
  if tests.isEmpty then pure () else RegisterM.fact kind fact gate tests

/-- Registers what an entry does by its table. -/
def registerByTable (table name : String) (e : Entry) : RegisterM Unit :=
  let feature := "features." ++ name
  let selected := selectionKey table name
  match table with
  | "edges" => do
    RegisterM.rule feature selected "=" none
    RegisterM.rule "edgesAllocated" selected "+=" none
  | "hindrances" => do
    RegisterM.rule feature selected "=" none
    RegisterM.rule "hindrancePoints" selected "+="
      (some (if e.value? "Severity" == some "Major" then "2" else "1"))
  | "races" => modify fun g => g.defineAll ((name :: e.values "Features").map (racialFeature name))
  | "powers" => do
    RegisterM.rule "powersAllocated" selected "+=" none
    let advances ← readNumber e "Advances"
    reportBelow "validation" (Note.attributeKey name ++ "Power") selected "advances"
      (advances.filter fun n => Number.lt 0 n)
  | "armors" => do
    let armor ← readNumber e "Armor"
    modify fun g => g.defineAll
      (armor.map fun n => ⟨"armor", selected, .max, .literal (.number n)⟩).toList
  | _ => pure ()

/-- Reports the strength that gear asks for. -/
def reportStrength (table name : String) (e : Entry) : RegisterM Unit := do
  if table == "weapons" || table == "armors" then
    reportBelow "sanity" (Note.attributeKey name ++ factSuffix table) (selectionKey table name)
      "strength" (← readNumber e "MinStr")

/-- Registers the notes of an entry and the value of the first one. -/
def registerEntryNotes (names : TargetNames) (name : String) (e : Entry) : RegisterM Unit :=
  match e.values "Section" with
  | [] => pure ()
  | category :: more => do
    RegisterM.change fun g =>
      Note.compileFeature Note.standardPhrasings g names name (category :: more) (e.values "Note")
    match e.value? "NoteValue" with
    | none => pure ()
    | some value =>
      RegisterM.rule (Note.noteKey category name) ("features." ++ name) "=" (some value)

/-- The registration of an entry. The whole entry is read first; the steps behind that read its fields
and the texts made of them once more. -/
def registration (names : TargetNames) (table name : String) (e : Entry) : RegisterM Unit := do
  discard (ofEntry table name e)
  registerByTable table name e
  reportStrength table name e
  let selected := selectionKey table name
  let fact := Note.attributeKey name ++ factSuffix table
  reportUnmet "validation" fact selected (e.values "Require")
  reportUnmet "sanity" fact selected (e.values "Imply")
  registerEntryNotes names name e

def registerEntry (g : RuleGraph) (names : TargetNames) (table name : String) (e : Entry) :
    Except ContentError RuleGraph :=
  let (outcome, after) := (registration names table name e).outcome g
  outcome.map fun _ => after

end Trait
end CharacterRules
