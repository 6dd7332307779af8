import CharacterRules.Rule.Order

/-!
The evaluation of a selection: every target is computed once from the raw choices and the targets
before it.
-/

namespace CharacterRules

/-- The value of a target after a contribution. -/
def Operator.combine (op : Operator) (current : Option Value) (contribution : Value) :
    Option Value :=
  match current with
  | none =>
    match op with
    | .multiply | .gate => none
    | _ => some contribution
  | some value =>
    match op, value.number?, contribution.number? with
    | .set, _, _ | .gate, _, _ => some value
    | .add, some a, some b => some (.number (a + b))
    | .add, _, _ => some (.text (value.display ++ contribution.display))
    | .max, some a, some b => some (.number (a.max b))
    | .min, some a, some b => some (.number (a.min b))
    | .multiply, some a, some b => some (.number (a * b))
    | _, _, _ => some value

namespace Rule

/-- The value of the source; an empty source has none. -/
def sourceValue (r : Rule) (sheet : Attributes) : Option Value :=
  if r.source == "" then none else sheet[r.source]?

/-- Whether the rule counts: its source is empty or counts as true. -/
def fires (r : Rule) (sheet : Attributes) : Bool :=
  r.source == "" || truthy (r.sourceValue sheet)

def contribution? (r : Rule) (sheet : Attributes) : Option Value :=
  r.formula.apply ⟨r.sourceValue sheet, sheet⟩

/-- Whether a gate lets its target be computed. A gate without source is also open if its formula
has no value. -/
def isOpen (r : Rule) (sheet : Attributes) : Bool :=
  let result := r.contribution? sheet
  if r.source == "" then result.all Value.isTruthy else r.fires sheet && truthy result

def contribute (sheet : Attributes) (value : Option Value) (r : Rule) : Option Value :=
  if r.fires sheet then
    match r.contribution? sheet with
    | some c => r.op.combine value c
    | none => value
  else value

end Rule

namespace RuleGraph

/-- The value that rules give to a target with a raw value. -/
def evaluateRules (rules : List Rule) (raw : Option Value) (sheet : Attributes) : Option Value :=
  -- gates come before all other rules, wherever they were registered
  let (gates, others) := rules.partition fun r => r.op == .gate
  if gates.all fun r => r.isOpen sheet then others.foldl (Rule.contribute sheet) raw else none

/-- The value of a target, given the attributes it reads. -/
def evaluateTarget (g : RuleGraph) (target : String) (selection : Selection)
    (sheet : Attributes) : Option Value :=
  evaluateRules (g.rulesFor target) selection[target]? sheet

/-- The attributes of a selection. -/
def evaluate (g : RuleGraph) (selection : Selection) : Snapshot :=
  g.evaluationOrder.foldl
    (fun sheet target => sheet.update target (g.evaluateTarget target selection sheet)) selection

end RuleGraph
end CharacterRules
