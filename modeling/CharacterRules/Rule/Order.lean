import CharacterRules.Rule.Graph
import Std.Data.TreeSet

/-!
The order of evaluation. A target comes after the targets its rules read; among those that may come
next, the one with the least name does. Targets that wait for each other come last, by name.
-/

namespace CharacterRules.RuleGraph

/-- The targets that the rules of a target read, other than itself. -/
def dependencies (g : RuleGraph) (target : String) : List String :=
  let rules := g.rulesFor target
  let named := (rules.flatMap Rule.keys).filter g.hasTarget
  let patterns := rules.flatMap fun r => r.formula.patterns
  let matching := patterns.flatMap fun p => g.targets.filter p.isMatch
  (Std.TreeSet.ofList (named ++ matching)).toList.filter (· != target)

/-- Targets with those they wait for. -/
abbrev Pending := List (String × List String)

/-- The first target that waits for nothing, and the others. -/
def takeReady? : Pending → Option (String × Pending)
  | [] => none
  | (target, []) :: rest => some (target, rest)
  | entry :: rest => (takeReady? rest).map fun (target, rest) => (target, entry :: rest)

/-- Nothing waits for a target any more. -/
def release (target : String) (pending : Pending) : Pending :=
  pending.map fun (other, waitsFor) => (other, waitsFor.filter (· != target))

/-- Orders targets, `fuel` of them by what they wait for. -/
def arrange : Nat → Pending → List String
  | 0, pending => pending.map (·.1)
  | fuel + 1, pending =>
    match takeReady? pending with
    | some (target, rest) => target :: arrange fuel (release target rest)
    | none => pending.map (·.1)

/-- The order of evaluation, computed from the rules. -/
def computeOrder (g : RuleGraph) : List String :=
  arrange g.targets.length (g.targets.map fun t => (t, g.dependencies t))

def evaluationOrder (g : RuleGraph) : List String := g.order.getD g.computeOrder

/-- The graph with its order of evaluation at hand. -/
def withOrder (g : RuleGraph) : RuleGraph := { g with order := some g.evaluationOrder }

end CharacterRules.RuleGraph
