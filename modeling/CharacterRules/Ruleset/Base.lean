import CharacterRules.Catalog.Basic
import CharacterRules.Note.Target
import CharacterRules.Ruleset.Ability
import CharacterRules.Ruleset.Budget

/-!
The rules that all characters share: base values, the dice and costs of the abilities of a catalog,
derived statistics, and the facts that watch the budgets.
-/

namespace CharacterRules

/-- The parts of a rule before its operator and formula are read. -/
structure RuleText where
  target : String
  source : String
  op : String
  formula : Option String := none

namespace RuleText

def constant (target value : String) : RuleText := ⟨target, "", "=", some value⟩

def computed (target source formula : String) : RuleText := ⟨target, source, "=", some formula⟩

def summand (target source : String) (formula : Option String) : RuleText :=
  ⟨target, source, "+=", formula⟩

end RuleText

/-- Registers rules one after another; the first that cannot be read is the error. -/
def RuleGraph.defineTexts (g : RuleGraph) (rules : List RuleText) : Except ContentError RuleGraph :=
  rules.foldlM (fun g r => g.defineText r.target r.source r.op r.formula) g

namespace Ruleset

/-- The statistics that notes can change by name. -/
def statistics : List String :=
  ["advances", "armor", "attributePoints", "edgePoints", "hindranceCap", "pace", "parry",
    "powerCount", "powerPoints", "size", "skillPoints", "toughness", "bennies"]

/-- The statistics with a base value. -/
def baseValues : List (String × String) :=
  [("attributePoints", "5"), ("skillPoints", "12"), ("hindranceCap", "4"), ("edgePoints", "0"),
    ("pace", "6"), ("parry", "2"), ("toughness", "2"), ("bennies", "3"), ("size", "0")]

/-- The names that the notes of a catalog can refer to. -/
def targetNames (c : Catalog) : TargetNames :=
  let names := (c.names "attributes").foldl TargetNames.addAttribute {}
  let names := (c.names "skills").foldl TargetNames.addSkill names
  statistics.foldl TargetNames.addStat names

/-- The rules of an attribute: it begins at the first step. -/
def attributeRules (name : String) : List RuleText :=
  let a := Ability.ofAttribute name
  [.constant a.step "1", .summand a.step a.allocation none,
    .computed a.die a.step Ability.dieFormula,
    .summand "attributePointsAllocated" a.allocation none,
    .computed a.roll a.die (Ability.rollFormula a.modifier)]

/-- The attribute that a skill is linked to, if the catalog has it. -/
def linkedAttribute? (c : Catalog) (skill : String) : Option String :=
  ((c.entry? "skills" skill).bind (·.value? "Attribute")).filter (c.contains "attributes")

/-- The formula of the surcharge for steps above the linked attribute. -/
def surchargeFormula (linked : String) : String :=
  "Math.max(source - " ++ (Ability.ofAttribute linked).step ++ ", 0)"

/-- The rules of a skill. -/
def skillRules (c : Catalog) (name : String) : List RuleText :=
  let s := Ability.ofSkill name
  [.summand s.step s.allocation none,
    .computed s.die s.step Ability.dieFormula,
    .summand "skillPointsAllocated" s.allocation none,
    .computed s.roll s.die (Ability.rollFormula s.modifier)] ++
  ((linkedAttribute? c name).map fun linked =>
    .summand "skillPointsAllocated" s.step (surchargeFormula linked)).toList

def derivedRules : List RuleText :=
  [.summand "parry" "skills.Fighting" "Math.floor(source / 2)",
    .summand "toughness" "vigor" "Math.floor(source / 2)",
    .summand "toughness" "size" none,
    .summand "toughness" "armor" none,
    .summand "edgePoints" "advances" none,
    .summand "edgePoints" "hindrancePoints"
      "Math.floor(Math.min(source, hindranceCap) / 2)"]

/-- The rules that all characters of a catalog share. -/
def baseRules (c : Catalog) : List RuleText :=
  baseValues.map (fun (key, value) => .constant key value) ++
    (c.names "attributes").flatMap attributeRules ++
    (c.names "skills").flatMap (skillRules c) ++
    derivedRules ++
    Budget.all.map fun b => .constant b.fact b.formula

end Ruleset
end CharacterRules
