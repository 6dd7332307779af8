import CharacterRules.Number.Basic
import CharacterRules.Unicode.Case

/-!
Abilities: attributes and skills. Both are bought in steps above a base; the step gives the die that
is rolled, and notes may add a modifier to the roll.
-/

namespace CharacterRules

/-- The keys of the attributes that belong to an ability. -/
structure Ability where
  die : String
  step : String
  /-- How many steps are bought. -/
  allocation : String
  modifier : String
  /-- The text of the roll. -/
  roll : String

namespace Ability

def attributeKey (name : String) : String := Unicode.lowercase name

def ofAttribute (name : String) : Ability :=
  let key := attributeKey name
  ⟨key, key ++ "Step", key ++ "Allocation", key ++ "Modifier", key ++ "Roll"⟩

def ofSkill (name : String) : Ability :=
  ⟨"skills." ++ name, "skillStep." ++ name, "skillAllocation." ++ name, "skillModifier." ++ name,
    "skillRoll." ++ name⟩

/-- The highest step that can be bought. -/
def maxStep : Nat := 5

/-- The formula of the die for a step. -/
def dieFormula : String := "Math.max(Math.min(2+source*2,12),4)"

/-- The die of a step: four sides at the first, two more for each further one, and twelve at most. -/
def dieOfStep (step : Number) : Number := .clamp 4 12 (2 + step * 2)

/-- The step of a die; the first one for a die that is too small. -/
def stepOfDie (die : Number) : Number := ((die - 2) / 2).max 1

/-- The formula of the text of a roll: the die, and the modifier with its sign unless it is zero. -/
def rollFormula (modifier : String) : String :=
  let m := "dict[\"" ++ modifier ++ "\"]"
  "'d' + source + (" ++ m ++ " > 0 ? '+' + " ++ m ++ " : " ++ m ++ " < 0 ? " ++ m ++ " : '')"

end Ability
end CharacterRules
