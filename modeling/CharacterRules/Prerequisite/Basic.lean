import CharacterRules.Attributes
import CharacterRules.Pattern.Basic

/-!
Requirements on the attributes of a character: clauses that all must hold, each a choice of
comparisons. An absent attribute reads as zero, or as the empty text for a pattern.
-/

namespace CharacterRules

/-- What a comparison looks at. -/
inductive Operand where
  | key (name : String)
  /-- The sum of the attributes whose key matches. -/
  | sum (pattern : Pattern)
  /-- The largest of the attributes whose key matches. -/
  | max (pattern : Pattern)
  deriving DecidableEq

inductive Relation where
  | eq
  | ne
  | ge
  | le
  | gt
  | lt
  deriving DecidableEq

/-- The condition a comparison puts on its operand. -/
inductive Test where
  | compare (relation : Relation) (expected : Value)
  | matches (pattern : Pattern)
  | differs (pattern : Pattern)

/-- One comparison. -/
structure Comparison where
  operand : Operand
  test : Test

/-- A choice of comparisons, one of which must hold. -/
structure Clause where
  alternatives : List Comparison

/-- A requirement: clauses that all must hold. -/
structure Prerequisite where
  clauses : List Clause

instance : BEq Test where
  beq
    | .compare r v, .compare s w => r == s && v == w
    | .matches p, .matches q => p == q
    | .differs p, .differs q => p == q
    | _, _ => false

instance : BEq Comparison where
  beq a b := a.operand == b.operand && a.test == b.test

instance : BEq Clause where
  beq a b := a.alternatives == b.alternatives

instance : BEq Prerequisite where
  beq a b := a.clauses == b.clauses

instance : Inhabited Prerequisite := ⟨⟨[]⟩⟩

/-- The keys looked up for a key, in order. A feature falls back to the edge or hindrance of its
name. -/
def lookupChain (key : String) : List String :=
  match Text.afterStart? key "features." with
  | some name => [key, "edges." ++ name, "hindrances." ++ name]
  | none => [key]

namespace Operand

/-- The numbers under the keys that match a pattern, in the order of the keys. -/
def matching (pattern : Pattern) (sheet : Attributes) : List Number :=
  sheet.toList.filterMap fun (k, value) =>
    if pattern.isMatch k then value.number? else none

/-- The value an operand stands for. -/
def resolve (sheet : Attributes) : Operand → Option Value
  | .key name => (lookupChain name).findSome? fun k => sheet[k]?
  | .sum pattern => some (.number ((matching pattern sheet).foldl (· + ·) 0))
  | .max pattern =>
    match matching pattern sheet with
    | [] => none
    | x :: rest => some (.number (rest.foldl .max x))

end Operand

namespace Relation

def symbol : Relation → String
  | .eq => "=="
  | .ne => "!="
  | .ge => ">="
  | .le => "<="
  | .gt => ">"
  | .lt => "<"

def holds : Relation → Ordering → Bool
  | .eq, o => o.isEq
  | .ne, o => o.isNe
  | .ge, o => o.isGE
  | .le, o => o.isLE
  | .gt, o => o.isGT
  | .lt, o => o.isLT

end Relation

/-- The order of an attribute and an expected value: of their numbers if both are numeric, else of
their texts. Numbers that are not comparable count as less. -/
def orderOf (actual expected : Value) : Ordering :=
  match actual.number?, expected.number? with
  | some a, some b => (a.order? b).getD .lt
  | _, _ => compare actual.display expected.display

/-- Whether a value passes a test. -/
def Test.accepts (actual : Option Value) : Test → Bool
  | .compare relation expected => relation.holds (orderOf (actual.getD (.number 0)) expected)
  | .matches pattern => pattern.isMatch (textOrEmpty actual)
  | .differs pattern => !pattern.isMatch (textOrEmpty actual)

def Comparison.holds (c : Comparison) (sheet : Attributes) : Bool :=
  c.test.accepts (c.operand.resolve sheet)

def Clause.holds (c : Clause) (sheet : Attributes) : Bool :=
  c.alternatives.any fun a => a.holds sheet

namespace Prerequisite

/-- The requirement of a single comparison. -/
def single (c : Comparison) : Prerequisite := ⟨[⟨[c]⟩]⟩

def holds (p : Prerequisite) (sheet : Attributes) : Bool := p.clauses.all fun c => c.holds sheet

def failing (p : Prerequisite) (sheet : Attributes) : List Clause :=
  p.clauses.filter fun c => !c.holds sheet

end Prerequisite

/-- A text in single quotes, with the single quotes inside escaped. -/
def singleQuoted (s : String) : String :=
  "'" ++ String.ofList (Text.escapeChars (· == '\'') s.toList) ++ "'"

def Operand.display : Operand → String
  | .key name => name
  | .sum pattern => "Sum " ++ singleQuoted pattern.source
  | .max pattern => "Max " ++ singleQuoted pattern.source

def Test.display : Test → String
  | .compare relation (.text s) => relation.symbol ++ " " ++ singleQuoted s
  | .compare relation (.number n) => relation.symbol ++ " " ++ n.display
  | .matches pattern => "=~ " ++ singleQuoted pattern.source
  | .differs pattern => "!~ " ++ singleQuoted pattern.source

def Comparison.display (c : Comparison) : String := c.operand.display ++ " " ++ c.test.display

def Clause.display (c : Clause) : String := Text.join " || " (c.alternatives.map (·.display))

def Prerequisite.display (p : Prerequisite) : String :=
  Text.join ", " (p.clauses.map (·.display))

end CharacterRules
