import CharacterRules.Formula.Expr
import CharacterRules.Prerequisite.Basic

/-!
The formulas that rules carry: a source passed on, a constant, an expression, or a requirement that
counts while it is unmet.
-/

namespace CharacterRules

/-- The formula of a rule. -/
inductive Formula where
  | passThrough
  | literal (v : Value)
  | expr (e : Expr)
  /-- One while the requirement does not hold, and zero once it does. -/
  | unmet (p : Prerequisite)

namespace Formula

instance : BEq Formula where
  beq
    | .passThrough, .passThrough => true
    | .literal a, .literal b => a == b
    | .expr a, .expr b => a == b
    | .unmet a, .unmet b => a == b
    | _, _ => false

/-- The value of a formula; without one the rule contributes nothing. -/
def apply (scope : Scope) : Formula → Option Value
  | .passThrough => scope.source
  | .literal v => some v
  | .expr e => e.eval scope
  | .unmet p => some (.ofBool (!p.holds scope.sheet))

/-- The operands that a requirement looks at. -/
def operands (p : Prerequisite) : List Operand :=
  p.clauses.flatMap fun c => c.alternatives.map (·.operand)

/-- The keys that a formula reads by name. -/
def keys : Formula → List String
  | .expr e => e.references
  | .unmet p => (operands p).flatMap fun
    | .key name => lookupChain name
    | _ => []
  | _ => []

/-- The patterns by which a formula reads keys. -/
def patterns : Formula → List Pattern
  | .unmet p => (operands p).filterMap fun
    | .key _ => none
    | .sum pattern | .max pattern => some pattern
  | _ => []

def display : Formula → String
  | .passThrough => "null"
  | .literal v => literalText v
  | .expr e => e.display
  | .unmet p => "unmet[" ++ p.display ++ "]"

end Formula
end CharacterRules
