import CharacterRules.Catalog.Basic
import CharacterRules.Rule.Graph

/-!
Traits: catalog entries whose fields have been read and checked. An entry is read in full before any
of it is used, so a bad one has no part in the rules.
-/

namespace CharacterRules

/-- An entry of the catalog with its meaning for the rules. -/
structure Trait where
  table : String
  name : String
  /-- The advances that a power asks for. -/
  advances : Option Number
  armor : Option Number
  /-- The strength that gear asks for. -/
  minStrength : Option Number
  sections : List String
  /-- The notes, one for each section. -/
  notes : List String
  /-- What must hold for a character with the trait to be valid. -/
  requires : Option Prerequisite
  /-- What should hold for a character with the trait to be sensible. -/
  implies : Option Prerequisite
  /-- The formula of the value that the first note shows. -/
  noteValue : Option Formula
  /-- Whether a hindrance is a major one. -/
  isMajor : Bool
  /-- The features that a race grants besides the one of its name. -/
  features : List String

namespace Trait

/-- The tables that the rules know, in the order in which their entries are registered. -/
def knownTables : List String :=
  ["attributes", "skills", "features", "races", "edges", "hindrances", "powers", "weapons",
    "armors", "concepts", "eras"]

/-- What follows the name of a trait in the names of its facts. -/
def factSuffix : String → String
  | "edges" => "Edge"
  | "hindrances" => "Hindrance"
  | "races" => "Race"
  | "powers" => "Power"
  | "weapons" => "Weapon"
  | "armors" => "Armor"
  | "skills" => "Skill"
  | _ => "Feature"

/-- The key of the choice that turns an entry on. Races and features are turned on as features. -/
def selectionKey (table name : String) : String :=
  match table with
  | "races" | "features" => "features." ++ name
  | other => other ++ "." ++ name

def readNumber (e : Entry) (field : String) : Except ContentError (Option Number) :=
  (e.number? field).mapError fun value => .notANumber field value

/-- Reads a field of requirements, if it has values. -/
def readRequirement (e : Entry) (field : String) : Except ContentError (Option Prerequisite) :=
  match e.values field with
  | [] => .ok none
  | tests => ((Prerequisite.ofTexts tests).mapError ContentError.prerequisite).map some

/-- Reads the value of the first note of an entry, which must then have a section. -/
def readNoteValue (table name : String) (e : Entry) : Except ContentError (Option Formula) :=
  match e.value? "NoteValue" with
  | none => .ok none
  | some value =>
    if (e.values "Section").isEmpty then .error (.invalidEntry table name .valueWithoutSection)
    else (Rule.readFormula value).map some

/-- Reads whether an entry is a major hindrance. -/
def readSeverity (table name : String) (e : Entry) : Except ContentError Bool :=
  let severity := e.value? "Severity"
  if table == "hindrances" && !(severity.all fun s => s == "Major" || s == "Minor") then
    .error (.invalidEntry table name .unknownSeverity)
  else .ok (severity == some "Major")

/-- Reads an entry. The first fault is the error: numbers come before the count of notes, and those
before requirements, the value of the note and the severity. -/
def ofEntry (table name : String) (e : Entry) : Except ContentError Trait := do
  let advances ← readNumber e "Advances"
  let armor ← readNumber e "Armor"
  let minStrength ← readNumber e "MinStr"
  let sections := e.values "Section"
  let notes := e.values "Note"
  if sections.length ≠ notes.length then
    throw (.mismatchedNotes name sections.length notes.length)
  let requires ← readRequirement e "Require"
  let implies ← readRequirement e "Imply"
  let noteValue ← readNoteValue table name e
  let isMajor ← readSeverity table name e
  return {
    table, name, advances, armor, minStrength, sections, notes, requires, implies, noteValue
    isMajor, features := e.values "Features" }

def featureKey (t : Trait) : String := "features." ++ t.name

/-- The key of the choice that turns a trait on. -/
def selectedKey (t : Trait) : String := selectionKey t.table t.name

end Trait
end CharacterRules
