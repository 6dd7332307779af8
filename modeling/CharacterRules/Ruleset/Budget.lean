import CharacterRules.Category

/-!
Budgets: the points a category may spend. Each budget is watched by a fact whose value is what is
overspent if it is positive, and what is left if it is negative.
-/

namespace CharacterRules

/-- A budget of a category. -/
structure Budget where
  /-- The key of the fact that watches the budget. -/
  fact : String
  category : Category
  /-- The key of the points there are. -/
  points : String
  /-- The key of the points spent. -/
  spent : String
  /-- Whether points that are left are no violation. -/
  overspendOnly : Bool

namespace Budget

def all : List Budget :=
  [⟨"validationNotes.attributeAllocation", .attributes, "attributePoints",
      "attributePointsAllocated", false⟩,
    ⟨"validationNotes.skillAllocation", .skills, "skillPoints", "skillPointsAllocated", false⟩,
    ⟨"validationNotes.edgeAllocation", .edges, "edgePoints", "edgesAllocated", true⟩,
    ⟨"validationNotes.powerAllocation", .powers, "powerCount", "powersAllocated", false⟩,
    ⟨"sanityNotes.hindranceAllocation", .hindrances, "hindranceCap", "hindrancePoints", true⟩]

/-- The formula of the fact. -/
def formula (b : Budget) : String :=
  if b.overspendOnly then "Math.max(" ++ b.spent ++ " - " ++ b.points ++ ", 0)"
  else b.spent ++ " - " ++ b.points

/-- The budget that a fact watches. -/
def ofFact? (fact : String) : Option Budget := all.find? fun b => b.fact == fact

def ofCategory? (category : Category) : Option Budget := all.find? fun b => b.category = category

end Budget
end CharacterRules
