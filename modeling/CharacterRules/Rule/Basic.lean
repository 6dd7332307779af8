import CharacterRules.Error
import CharacterRules.Formula.Basic

/-!
Rules: single contributions from a source attribute to a target attribute.
-/

namespace CharacterRules

/-- How a contribution enters its target. -/
inductive Operator where
  /-- The first contribution to an unset target stays. -/
  | set
  /-- Numbers are summed and texts joined. -/
  | add
  | max
  | min
  /-- The target is multiplied; an unset one stays unset. -/
  | multiply
  /-- The target stays absent unless the contribution counts as true. -/
  | gate
  deriving DecidableEq

namespace Operator

def symbol : Operator → String
  | .set => "="
  | .add => "+="
  | .max => "^="
  | .min => "v"
  | .multiply => "*="
  | .gate => "?"

/-- The operator of a written form, which may have white space around it. -/
def ofText (text : String) : Except ContentError Operator :=
  match Text.trim text with
  | "=" => .ok .set
  | "+=" | "+" => .ok .add
  | "^=" | "^" => .ok .max
  | "v" | "v=" => .ok .min
  | "*=" | "*" | "x" => .ok .multiply
  | "?" => .ok .gate
  | other => .error (.unknownOperator other)

end Operator

/-- A contribution to a target. It counts while its source counts as true; an empty source always
does. -/
structure Rule where
  target : String
  source : String
  op : Operator
  formula : Formula

namespace Rule

instance : BEq Rule where
  beq a b :=
    a.target == b.target && a.source == b.source && a.op == b.op && a.formula == b.formula

def display (r : Rule) : String :=
  r.target ++ " " ++ r.op.symbol ++ " " ++ r.formula.display ++
    if r.source == "" then "" else " <- " ++ r.source

def readFormula (text : Option String) : Except ContentError Formula :=
  (Formula.parseRule text).mapError fun (text, faults) => .formula text faults

def ofText (target source op : String) (formula : Option String) : Except ContentError Rule := do
  let op ← Operator.ofText op
  let formula ← readFormula formula
  return ⟨target, source, op, formula⟩

/-- The keys a rule reads by name. -/
def keys (r : Rule) : List String :=
  (if r.source == "" then [] else [r.source]) ++ r.formula.keys

end Rule
end CharacterRules
