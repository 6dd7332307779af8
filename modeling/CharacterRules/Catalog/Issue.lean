import CharacterRules.Trait.Basic

/-!
Issues of a catalog: entries that the rules would skip, and references between tables that lead
nowhere.
-/

namespace CharacterRules

/-- How grave an issue is. -/
inductive Severity where
  | error
  | warning
  deriving DecidableEq

def Severity.text : Severity → String
  | .error => "error"
  | .warning => "warning"

/-- An issue of a catalog. An issue of a whole table has an empty entry. -/
structure Issue where
  severity : Severity
  table : String
  entry : String
  message : String
  deriving DecidableEq

namespace Issue

/-- The issue of an entry with a fault. A defect is told without the name of the entry. -/
def ofError (table entry : String) (e : ContentError) : Issue :=
  ⟨.error, table, entry,
    match e with
    | .invalidEntry _ _ defect => defect.message
    | other => other.message⟩

def display (i : Issue) : String :=
  i.severity.text ++ ": " ++ i.table ++
    (if i.entry == "" then "" else " '" ++ i.entry ++ "'") ++ ": " ++ i.message

end Issue

namespace Catalog

/-- The entries of the tables that the rules know, by table and name. -/
def knownEntries (c : Catalog) : List (String × String × Entry) :=
  Trait.knownTables.flatMap fun table =>
    (c.table table).toList.map fun (name, e) => (table, name, e)

/-- The issue of an entry that cannot be read. -/
def entryIssue? (table name : String) (e : Entry) : Option Issue :=
  match Trait.ofEntry table name e with
  | .ok _ => none
  | .error fault => some (.ofError table name fault)

/-- The issues of the entries that were rejected or cannot be read. -/
def errors (c : Catalog) : List Issue :=
  c.rejected.map (fun r => ⟨.error, r.table, r.name, r.reason⟩) ++
    c.knownEntries.filterMap fun (table, name, e) => entryIssue? table name e

/-- The warnings about tables as a whole. -/
def tableWarnings (c : Catalog) : List Issue :=
  (c.tableNames.filter fun table => !Trait.knownTables.contains table).map
    (fun table => ⟨.warning, table, "", "unknown table; its entries are ignored"⟩) ++
  if (c.names "attributes").isEmpty then
    [⟨.warning, "attributes", "", "no attributes defined"⟩]
  else []

/-- The warnings that a check of each entry of a table gives. -/
def entryWarnings (c : Catalog) (table : String) (check : Entry → List String) : List Issue :=
  (c.table table).toList.flatMap fun (name, e) =>
    (check e).map fun message => ⟨.warning, table, name, message⟩

/-- A warning for each name that fails a check. -/
def unknownNames (known : String → Bool) (before after : String) (names : List String) :
    List String :=
  (names.filter fun name => !known name).map fun name => before ++ " '" ++ name ++ "'" ++ after

/-- What is wrong with the attribute that a skill is linked to. -/
def checkSkill (c : Catalog) (e : Entry) : List String :=
  match e.value? "Attribute" with
  | none => ["no linked Attribute; steps above d4 cost one point each"]
  | some linked => unknownNames (c.contains "attributes") "unknown attribute" "" [linked]

/-- What is wrong with the features that a race grants. -/
def checkRace (c : Catalog) (e : Entry) : List String :=
  let known (feature : String) : Bool :=
    ["features", "edges", "hindrances"].any fun table => c.contains table feature
  unknownNames known "feature" " has no catalog entry" (e.values "Features")

/-- What is wrong with the eras of a weapon. -/
def checkWeapon (c : Catalog) (e : Entry) : List String :=
  unknownNames (c.contains "eras") "unknown era" "" (e.values "Era")

/-- The fields of a concept with the tables whose entries they name. -/
def conceptFields : List (String × String) :=
  [("Attribute", "attributes"), ("Skill", "skills"), ("Edge", "edges"), ("Power", "powers")]

/-- What is wrong with the preferences of a concept. -/
def checkConcept (c : Catalog) (e : Entry) : List String :=
  conceptFields.flatMap fun (field, table) =>
    unknownNames (c.contains table) field (" is not in " ++ table) (e.values field)

/-- All issues: errors in the order of the tables, then warnings. -/
def issues (c : Catalog) : List Issue :=
  c.errors ++ c.tableWarnings ++
    c.entryWarnings "skills" c.checkSkill ++ c.entryWarnings "races" c.checkRace ++
    c.entryWarnings "weapons" c.checkWeapon ++ c.entryWarnings "concepts" c.checkConcept

end Catalog
end CharacterRules
