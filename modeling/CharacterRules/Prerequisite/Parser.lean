import CharacterRules.Prerequisite.Basic
import CharacterRules.Text.Quoted

/-!
The written form of requirements: clauses separated by commas, and comparisons separated by double
bars. An attribute alone means that it is not zero, and one behind an exclamation mark that it is.
-/

namespace CharacterRules

namespace Prerequisite

/-- What is wrong with the text of a requirement. -/
inductive Fault where
  | emptyComparison
  | missingAttribute
  | missingOperand
  | missingValue (operator : String)
  | textBeforeOperator
  | missingOperator
  | invalidPattern (source : String)
  deriving DecidableEq

def Fault.message : Fault → String
  | .emptyComparison => "empty comparison"
  | .missingAttribute => "missing attribute"
  | .missingOperand => "missing attribute before operator"
  | .missingValue operator => "missing value after " ++ operator
  | .textBeforeOperator => "unexpected text before operator"
  | .missingOperator => "expected a comparison operator"
  | .invalidPattern source => "invalid pattern " ++ Text.quote source

/-- A fault with the text of the comparison it is in. -/
structure TextFault where
  text : String
  fault : Fault
  deriving DecidableEq

/-- The inside of a text in quotes of one kind without further ones of that kind. -/
def unquote? (mark : Char) : List Char → Option (List Char)
  | c :: rest =>
    match rest.reverse with
    | d :: inner => if c == mark && d == mark && !inner.contains mark then some inner.reverse else none
    | [] => none
  | [] => none

/-- The text without quotes around it. -/
def stripQuotes (text : List Char) : List Char :=
  (unquote? '"' text).getD ((unquote? '\'' text).getD text)

/-- The state of a scan that looks for commas outside quotes and brackets. -/
structure Nesting where
  quote : Option Char := none
  depth : Nat := 0
  deriving DecidableEq

namespace Nesting

/-- Whether a comma separates in this state. -/
def isTop (n : Nesting) : Bool := n.quote.isNone && n.depth == 0

/-- The state behind a character. -/
def step (n : Nesting) (c : Char) : Nesting :=
  match n.quote with
  | some q => if c == q then { n with quote := none } else n
  | none =>
    if c == '"' || c == '\'' then { n with quote := some c }
    else if c == '(' || c == '[' then { n with depth := n.depth + 1 }
    else if c == ')' || c == ']' then { n with depth := n.depth - 1 }
    else n

end Nesting

/-- The parts of a text between its separating commas. -/
def splitCommas (n : Nesting) : List Char → List (List Char)
  | [] => [[]]
  | c :: rest =>
    if c == ',' && n.isTop then [] :: splitCommas n rest
    else
      match splitCommas (n.step c) rest with
      | part :: parts => (c :: part) :: parts
      | [] => [[c]]

/-- The parts of a text between its separating commas, without white space and quotes around them
and without empty ones. -/
def splitTopLevel (text : String) : List String :=
  (((splitCommas {} text.toList).map fun part => stripQuotes (Text.trimChars part)).filter
    fun part => !part.isEmpty).map String.ofList

/-- The operators between an operand and a value. -/
inductive Comparator where
  | relation (r : Relation)
  | matches
  | differs
  deriving DecidableEq

def Comparator.symbol : Comparator → String
  | .relation r => r.symbol
  | .matches => "=~"
  | .differs => "!~"

/-- The operator that the characters begin with, and what follows it. -/
def operatorAt? : List Char → Option (Comparator × List Char)
  | '=' :: '=' :: rest => some (.relation .eq, rest)
  | '!' :: '=' :: rest => some (.relation .ne, rest)
  | '>' :: '=' :: rest => some (.relation .ge, rest)
  | '<' :: '=' :: rest => some (.relation .le, rest)
  | '=' :: '~' :: rest => some (.matches, rest)
  | '!' :: '~' :: rest => some (.differs, rest)
  | '>' :: rest => some (.relation .gt, rest)
  | '<' :: rest => some (.relation .lt, rest)
  | _ => none

/-- The first operator in a text, with what is before and behind it. -/
def findOperator? : List Char → Option (List Char × Comparator × List Char)
  | [] => none
  | c :: rest =>
    match operatorAt? (c :: rest) with
    | some (op, after) => some ([], op, after)
    | none => (findOperator? rest).map fun (before, op, after) => (c :: before, op, after)

/-- The value a text stands for: a quoted text, a number, or the text itself. -/
def literal (text : List Char) : Value :=
  let text := Text.trimChars text
  let inner := stripQuotes text
  -- quotes make a text of what would read as a number
  if inner.length ≠ text.length then .text (String.ofList inner)
  else
    match Number.ofText? (String.ofList text) with
    | some n => .number n
    | none => .text (String.ofList text)

def readPattern (source : List Char) : Except Fault Pattern :=
  match Pattern.ofText? (String.ofList source) with
  | some p => .ok p
  | none => .error (.invalidPattern (String.ofList source))

/-- The test of an operator and the text behind it. -/
def readTest (op : Comparator) (after : List Char) : Except Fault Test :=
  match op with
  | .matches => (readPattern (stripQuotes (Text.trimChars after))).map .matches
  | .differs => (readPattern (stripQuotes (Text.trimChars after))).map .differs
  | .relation r =>
    if (Text.trimChars after).isEmpty then .error (.missingValue r.symbol)
    else .ok (.compare r (literal after))

def isNonzero : Test := .compare .ne (.number 0)

def isZero : Test := .compare .eq (.number 0)

/-- What names many attributes at once: whether the largest or the sum is meant, the pattern, and
the text behind it. -/
def aggregate? (text : List Char) : Option (Bool × List Char × List Char) := do
  let (largest, rest) ← match text with
    | 'S' :: 'u' :: 'm' :: rest => some (false, rest)
    | 'M' :: 'a' :: 'x' :: rest => some (true, rest)
    | _ => none
  let (mark, rest) ← match rest, rest.dropWhile Unicode.isSpace with
    | c :: _, mark :: more =>
      if Unicode.isSpace c && (mark == '\'' || mark == '"') then some (mark, more) else none
    | _, _ => none
  match rest.dropWhile (· != mark) with
  | [] => none
  | _ :: after =>
    let after := after.dropWhile Unicode.isSpace
    if after.contains '\n' then none else some (largest, rest.takeWhile (· != mark), after)

/-- The comparison of many attributes at once. -/
def readAggregate (largest : Bool) (source after : List Char) : Except Fault Comparison := do
  let pattern ← readPattern source
  let operand := if largest then Operand.max pattern else Operand.sum pattern
  let after := Text.trimChars after
  match findOperator? after with
  | some ([], op, value) => return ⟨operand, ← readTest op value⟩
  | some _ => throw .textBeforeOperator
  | none => if after.isEmpty then return ⟨operand, isNonzero⟩ else throw .missingOperator

/-- The comparison of a single attribute. -/
def readSingle (text : List Char) : Except Fault Comparison :=
  match findOperator? text with
  | some (before, op, after) =>
    let key := Text.trimChars before
    if key.isEmpty then .error .missingOperand
    else (readTest op after).map fun test => ⟨.key (String.ofList key), test⟩
  | none =>
    let (test, key) := match text with
      | '!' :: rest => (isZero, Text.trimChars rest)
      | rest => (isNonzero, rest)
    if key.isEmpty then .error .missingAttribute else .ok ⟨.key (String.ofList key), test⟩

def readComparison (text : List Char) : Except TextFault Comparison :=
  let trimmed := Text.trimChars text
  let result :=
    if trimmed.isEmpty then .error .emptyComparison
    else
      match aggregate? trimmed with
      | some (largest, source, after) => readAggregate largest source after
      | none => readSingle trimmed
  result.mapError fun fault => ⟨String.ofList text, fault⟩

/-- The parts of a text between its double bars. -/
def splitBars : List Char → List (List Char)
  | [] => [[]]
  | [c] => [[c]]
  | c :: d :: rest =>
    if c == '|' && d == '|' then [] :: splitBars rest
    else
      match splitBars (d :: rest) with
      | part :: parts => (c :: part) :: parts
      | [] => [[c]]

def readClause (text : String) : Except TextFault Clause :=
  ((splitBars text.toList).mapM readComparison).map Clause.mk

/-- The clauses followed by those that are not among them yet. -/
def addClauses (clauses more : List Clause) : List Clause :=
  more.foldl (fun known c => if known.contains c then known else known ++ [c]) clauses

/-- Reads a requirement given in parts, whose clauses must all hold. -/
def ofTexts (items : List String) : Except TextFault Prerequisite := do
  let clauses ← (items.flatMap splitTopLevel).mapM readClause
  return ⟨addClauses [] clauses⟩

def ofText (text : String) : Except TextFault Prerequisite := ofTexts [text]

end Prerequisite
end CharacterRules
