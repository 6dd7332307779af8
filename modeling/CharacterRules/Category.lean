import CharacterRules.Error
import CharacterRules.Unicode.Case

/-!
The categories of choices that make up a character.
-/

namespace CharacterRules

/-- A category of choices. -/
inductive Category where
  | era
  | race
  | gender
  | name
  | concept
  | attributes
  | skills
  | hindrances
  | edges
  | powers
  | weapons
  | armor
  deriving DecidableEq

namespace Category

/-- All categories, in the order in which a character is generated. -/
def all : List Category :=
  [.era, .race, .gender, .name, .concept, .attributes, .skills, .hindrances, .edges, .powers,
    .weapons, .armor]

/-- The written name. It is also the key of a choice that is a single value. -/
def text : Category → String
  | .era => "era"
  | .race => "race"
  | .gender => "gender"
  | .name => "name"
  | .concept => "concept"
  | .attributes => "attributes"
  | .skills => "skills"
  | .hindrances => "hindrances"
  | .edges => "edges"
  | .powers => "powers"
  | .weapons => "weapons"
  | .armor => "armor"

/-- The table of the catalog that a category draws from. -/
def table? : Category → Option String
  | .era => some "eras"
  | .race => some "races"
  | .gender => none
  | .name => none
  | .concept => some "concepts"
  | .armor => some "armors"
  | category => some category.text

/-- What precedes the name in the keys of a category whose entries are turned on one by one. -/
def toggleStart? : Category → Option String
  | .hindrances => some "hindrances."
  | .edges => some "edges."
  | .powers => some "powers."
  | .weapons => some "weapons."
  | .armor => some "armors."
  | _ => none

/-- Whether a category is a single value, which is assigned without a check. -/
def isDirect : Category → Bool
  | .era | .race | .gender | .name | .concept => true
  | _ => false

/-- The field in which a concept lists the names it prefers. -/
def conceptField? : Category → Option String
  | .attributes => some "Attribute"
  | .skills => some "Skill"
  | .edges => some "Edge"
  | .powers => some "Power"
  | _ => none

/-- The written name that a plural stands for. -/
def singular : String → String
  | "armors" => "armor"
  | "races" => "race"
  | "eras" => "era"
  | "concepts" => "concept"
  | other => other

/-- The category of a written name, in any case and with white space around it. -/
def ofText (text : String) : Except ContentError Category :=
  let name := singular (Unicode.lowercase (Text.trim text))
  match all.find? fun c => c.text == name with
  | some category => .ok category
  | none => .error (.unknownCategory text)

end Category
end CharacterRules
