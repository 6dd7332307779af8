import CharacterRules.Repair.Fix
import CharacterRules.Repair.Trim

/-!
The repair of selections. A pass goes through the violated facts and tries a fix for each unmet
clause of their requirements; a key that was changed stays as it is for the rest of the run. The run
ends when a pass changes nothing or the passes are used up, and the best selection seen is its result.
-/

namespace CharacterRules

structure RepairState where
  selection : Selection
  /-- The keys that were changed. -/
  frozen : Std.TreeSet String := {}
  random : Random

namespace RepairState

/-- The state after a fix, whose key is then frozen. -/
def applyFix (p : RepairState) (fix : Fix) : RepairState :=
  { p with selection := fix.apply p.selection, frozen := p.frozen.insert fix.key }

end RepairState

namespace Ruleset

def violations (r : Ruleset) (s : Selection) : List String :=
  Attributes.violations (r.evaluate s)

def violationCount (r : Ruleset) (s : Selection) : Nat := (r.violations s).length

/-- Tries to fix a clause by one of its alternatives, drawn at random. Tells whether it did. -/
def fixClause (r : Ruleset) (sheet : Snapshot) (p : RepairState) (c : Clause) :
    RepairState × Bool :=
  match p.random.choose? c.alternatives with
  | (none, random) => ({ p with random }, false)
  | (some alternative, random) =>
    let (fix, random) := r.planFix alternative sheet random
    match fix.filter fun fix => !p.frozen.contains fix.key with
    | some fix => ({ p with random }.applyFix fix, true)
    | none => ({ p with random }, false)

def fixClauses (r : Ruleset) (sheet : Snapshot) (p : RepairState) (clauses : List Clause) :
    RepairState × Bool :=
  clauses.foldl
    (fun (p, changed) c =>
      let (p, fixed) := r.fixClause sheet p c
      (p, changed || fixed))
    (p, false)

/-- The choice that turns a fact on. -/
def gateOf? (r : Ruleset) (fact : String) : Option String :=
  ((r.graph.rulesFor fact).find? fun rule => rule.op == .gate && rule.source != "").map (·.source)

/-- Drops the choice that turns a fact on, if it may be changed. -/
def dropTrait (r : Ruleset) (p : RepairState) (fact : String) : RepairState × Bool :=
  match r.gateOf? fact with
  | none => (p, false)
  | some gate =>
    if p.frozen.contains gate || !p.selection.contains gate then (p, false)
    else (p.applyFix (.remove gate), true)

/-- Settles a budget and freezes what that changed. -/
def settleBudget (r : Ruleset) (fuel : Nat) (b : Budget) (sheet : Snapshot) (p : RepairState) :
    Option (RepairState × Bool) :=
  (r.settle fuel b p.frozen p.selection sheet p.random).map fun (s, random) =>
    let changed := changedKeys p.selection s
    (⟨s, p.frozen.insertMany changed, random⟩, !changed.isEmpty)

/-- Tries to fix a violated fact: a budget is settled, the clauses of a requirement are fixed, and if
none could be, the choice that turned the fact on is dropped. -/
def fixFact (r : Ruleset) (fuel : Nat) (sheet : Snapshot) (p : RepairState) (fact : String) :
    Option (RepairState × Bool) :=
  match Budget.ofFact? fact with
  | some b => r.settleBudget fuel b sheet p
  | none =>
    match r.graph.requirements[fact]? with
    | none => some (p, false)
    | some requirement =>
      match r.fixClauses sheet p (requirement.failing sheet) with
      | (p, true) => some (p, true)
      | (p, false) => some (r.dropTrait p fact)

/-- Goes through facts and tries to fix those that are still violated. Tells whether any was. -/
def repairPass (r : Ruleset) (fuel : Nat) :
    List String → RepairState → Option (RepairState × Bool)
  | [], p => some (p, false)
  | fact :: rest, p => do
    let sheet := r.evaluate p.selection
    let (p, fixed) ← if truthy sheet[fact]? then r.fixFact fuel sheet p fact else some (p, false)
    let (p, more) ← r.repairPass fuel rest p
    return (p, fixed || more)

/-- The better of two selections; the first of two with equally many violations. -/
def fewerViolations (r : Ruleset) (s t : Selection) : Selection :=
  if r.violationCount t < r.violationCount s then t else s

/-- Repairs by up to the given number of passes. The result holds the state at the end and the best
selection seen. -/
def repairPasses (r : Ruleset) (fuel : Nat) :
    Nat → RepairState → Selection → Option (RepairState × Selection)
  | 0, p, best => some (p, best)
  | passes + 1, p, best =>
    match r.violations p.selection with
    | [] => some (p, best)
    | facts => do
      let (p, fixed) ← r.repairPass fuel facts p
      let best := r.fewerViolations best p.selection
      if fixed then r.repairPasses fuel passes p best else return (p, best)

/-- Repairs a selection. The result is the selection at the end, unless an earlier one had fewer
violations; there is none if `fuel` does not last for the trimming of a budget. -/
def makeValid (r : Ruleset) (fuel : Nat) (s : Selection) (random : Random) :
    Option (Selection × Random) := do
  let (p, best) ← r.repairPasses fuel r.repair.maxPasses ⟨s, {}, random⟩ s
  return (r.fewerViolations p.selection best, p.random)

end Ruleset
end CharacterRules
