import CharacterRules.Rule.Basic

/-!
Rule graphs: the rules of a setting in the order of their registration, with the notes and
requirements that belong to them. A rule is registered once, however often it is given.
-/

namespace CharacterRules

/-- A collection of rules. `positions` lists for each target where its rules are, and `order` holds
the order of evaluation once it has been asked for. -/
structure RuleGraph where
  rules : Array Rule := #[]
  positions : Std.TreeMap String (Array Nat) := {}
  notes : Std.TreeMap String String := {}
  requirements : Std.TreeMap String Prerequisite := {}
  order : Option (List String) := none

namespace RuleGraph

/-- The rules onto a target, in the order of their registration. -/
def rulesFor (g : RuleGraph) (target : String) : List Rule :=
  (g.positions.getD target #[]).toList.filterMap fun i => g.rules[i]?

/-- The rules with a source, in the order of their registration. -/
def rulesFrom (g : RuleGraph) (source : String) : List Rule :=
  g.rules.toList.filter fun r => r.source == source

/-- Whether any rule writes a key. -/
def hasTarget (g : RuleGraph) (key : String) : Bool := g.positions.contains key

def targets (g : RuleGraph) : List String := g.positions.keys

/-- Whether an equal rule is registered. -/
def hasRule (g : RuleGraph) (r : Rule) : Bool := (g.rulesFor r.target).any (· == r)

/-- Registers a rule unless an equal one is registered. -/
def define (g : RuleGraph) (r : Rule) : RuleGraph :=
  if g.hasRule r then g
  else
    { g with
      rules := g.rules.push r
      positions :=
        g.positions.insert r.target ((g.positions.getD r.target #[]).push g.rules.size)
      order := none }

def defineAll (g : RuleGraph) (rules : List Rule) : RuleGraph := rules.foldl define g

def defineText (g : RuleGraph) (target source op : String) (formula : Option String) :
    Except ContentError RuleGraph :=
  (Rule.ofText target source op formula).map g.define

/-- Keeps the text of a note. -/
def defineNote (g : RuleGraph) (key text : String) : RuleGraph :=
  { g with notes := g.notes.insert key text }

/-- Keeps the requirement behind a fact; clauses accumulate. -/
def defineRequirement (g : RuleGraph) (fact : String) (p : Prerequisite) : RuleGraph :=
  let known := g.requirements.getD fact default
  { g with
    requirements :=
      g.requirements.insert fact ⟨Prerequisite.addClauses known.clauses p.clauses⟩ }

/-- The key of a fact of a kind, such as validation, under a name. -/
def factKey (kind name : String) : String := kind ++ "Notes." ++ name

/-- The rules of a fact: it counts the unmet clauses while the gate counts as true. -/
def factRules (fact gate : String) (p : Prerequisite) : List Rule :=
  (if gate == "" then [] else [⟨fact, gate, .gate, .passThrough⟩]) ++
    p.clauses.map fun c => ⟨fact, gate, .add, .unmet ⟨[c]⟩⟩

/-- Registers a fact with its requirement. -/
def defineFact (g : RuleGraph) (fact gate : String) (p : Prerequisite) : RuleGraph :=
  (g.defineAll (factRules fact gate p)).defineRequirement fact p

/-- Registers a fact given in parts. -/
def defineFactText (g : RuleGraph) (kind name gate : String) (tests : List String) :
    Except ContentError RuleGraph :=
  match Prerequisite.ofTexts tests with
  | .ok p => .ok (g.defineFact (factKey kind name) gate p)
  | .error fault => .error (.prerequisite fault)

end RuleGraph
end CharacterRules
