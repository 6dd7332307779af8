import CharacterRules.Attributes

/-!
Formula expressions and their values. An attribute that is absent counts as zero in arithmetic, and
an expression may itself have no value.
-/

namespace CharacterRules

inductive UnaryOp where
  | neg
  | not
  deriving DecidableEq

inductive BinaryOp where
  | add
  | sub
  | mul
  | div
  | rem
  | eq
  | ne
  | lt
  | le
  | gt
  | ge
  | and
  | or
  deriving DecidableEq

/-- The functions formulas can call. -/
inductive Builtin where
  | max
  | min
  | floor
  | ceil
  | round
  | abs
  deriving DecidableEq

/-- A formula expression. -/
inductive Expr where
  | literal (v : Value)
  /-- The source of the rule, if the name is `source`, or the attribute of that name. -/
  | ident (name : String)
  /-- The attribute under a key that need not be a name. -/
  | index (key : String)
  | unary (op : UnaryOp) (operand : Expr)
  | binary (op : BinaryOp) (left right : Expr)
  | call (function : Builtin) (arguments : List Expr)
  | conditional (condition whenTrue whenFalse : Expr)

/-- What a formula sees: the value of its rule's source and the attributes computed so far. -/
structure Scope where
  source : Option Value
  sheet : Attributes

/-- The order of two attributes: of their numbers if both are numeric, else of their texts. An
absent one is zero. -/
def compareValues (a b : Option Value) : Option Ordering :=
  match a.elim (some 0) Value.number?, b.elim (some 0) Value.number? with
  | some x, some y => x.order? y
  | _, _ => some (compare (textOrEmpty a) (textOrEmpty b))

/-- Whether an attribute is a text that does not read as a number. -/
def isWords (v : Option Value) : Bool :=
  match v with
  | some (.text s) => (Number.ofText? (Text.trim s)).isNone
  | _ => false

namespace UnaryOp

def symbol : UnaryOp → String
  | .neg => "-"
  | .not => "!"

def apply : UnaryOp → Option Value → Option Value
  | .neg, v => some (.number (-numberOrZero v))
  | .not, v => some (.ofBool (!truthy v))

end UnaryOp

namespace BinaryOp

def symbol : BinaryOp → String
  | .add => "+"
  | .sub => "-"
  | .mul => "*"
  | .div => "/"
  | .rem => "%"
  | .eq => "=="
  | .ne => "!="
  | .lt => "<"
  | .le => "<="
  | .gt => ">"
  | .ge => ">="
  | .and => "&&"
  | .or => "||"

/-- The value of an operation. Words are joined by addition, there is no quotient or remainder by
zero, and the logical operators give one of their operands. -/
def apply (op : BinaryOp) (l r : Option Value) : Option Value :=
  let a := numberOrZero l
  let b := numberOrZero r
  let compared (accepts : Ordering → Bool) : Option Value :=
    some (.ofBool ((compareValues l r).any accepts))
  match op with
  | .add =>
    if isWords l || isWords r then some (.text (textOrEmpty l ++ textOrEmpty r))
    else some (.number (a + b))
  | .sub => some (.number (a - b))
  | .mul => some (.number (a * b))
  | .div => if b.isZero then none else some (.number (a / b))
  | .rem => if b.isZero then none else some (.number (a % b))
  | .eq => compared Ordering.isEq
  | .ne => some (.ofBool (!(compareValues l r).any Ordering.isEq))
  | .lt => compared Ordering.isLT
  | .le => compared Ordering.isLE
  | .gt => compared Ordering.isGT
  | .ge => compared Ordering.isGE
  | .and => if truthy l then r else some (l.getD (.number 0))
  | .or => if truthy l then l else r

end BinaryOp

namespace Builtin

def all : List Builtin := [.max, .min, .floor, .ceil, .round, .abs]

def name : Builtin → String
  | .max => "Math.max"
  | .min => "Math.min"
  | .floor => "Math.floor"
  | .ceil => "Math.ceil"
  | .round => "Math.round"
  | .abs => "Math.abs"

def ofName? (name : String) : Option Builtin := all.find? fun f => f.name == name

/-- Combines the elements of a list that is not empty. -/
def combineAll (f : Number → Number → Number) : List Number → Option Number
  | [] => none
  | x :: rest => some (rest.foldl f x)

/-- The value of a call. Without arguments there is none; functions of one argument ignore the
others. -/
def apply : Builtin → List Number → Option Number
  | .max, xs => combineAll .max xs
  | .min, xs => combineAll .min xs
  | .floor, xs => xs.head?.map .floor
  | .ceil, xs => xs.head?.map .ceil
  | .round, xs => xs.head?.map .round
  | .abs, xs => xs.head?.map .abs

end Builtin

/-- The text of a literal: a number as shown, a text in double quotes. -/
def literalText : Value → String
  | .number n => n.display
  | .text s =>
    "\"" ++ String.ofList (Text.escapeChars (fun c => c == '\\' || c == '"') s.toList) ++ "\""

namespace Expr

mutual

/-- The value of an expression, if it has one. -/
def eval (scope : Scope) : Expr → Option Value
  | .literal v => some v
  | .ident name => if name == "source" then scope.source else scope.sheet[name]?
  | .index key => scope.sheet[key]?
  | .unary op e => op.apply (e.eval scope)
  | .binary op l r => op.apply (l.eval scope) (r.eval scope)
  | .call f arguments => (f.apply (evalAll scope arguments)).map .number
  | .conditional c t e => if truthy (c.eval scope) then t.eval scope else e.eval scope

/-- The numbers of a list of expressions. -/
def evalAll (scope : Scope) : List Expr → List Number
  | [] => []
  | e :: rest => numberOrZero (e.eval scope) :: evalAll scope rest

end

mutual

/-- The keys of the attributes that an expression reads by name. -/
def references : Expr → List String
  | .literal _ => []
  | .ident name => if name == "source" then [] else [name]
  | .index key => [key]
  | .unary _ e => e.references
  | .binary _ l r => l.references ++ r.references
  | .call _ arguments => referencesAll arguments
  | .conditional c t e => c.references ++ t.references ++ e.references

/-- The keys of the attributes that a list of expressions reads. -/
def referencesAll : List Expr → List String
  | [] => []
  | e :: rest => e.references ++ referencesAll rest

end

mutual

/-- The text of an expression, with every operation in parentheses. -/
def display : Expr → String
  | .literal v => literalText v
  | .ident name => name
  | .index key => "dict[\"" ++ key ++ "\"]"
  | .unary op e => op.symbol ++ e.display
  | .binary op l r => "(" ++ l.display ++ " " ++ op.symbol ++ " " ++ r.display ++ ")"
  | .call f arguments => f.name ++ "(" ++ Text.join ", " (displayAll arguments) ++ ")"
  | .conditional c t e => "(" ++ c.display ++ " ? " ++ t.display ++ " : " ++ e.display ++ ")"

/-- The texts of a list of expressions. -/
def displayAll : List Expr → List String
  | [] => []
  | e :: rest => e.display :: displayAll rest

end

mutual

/-- Equality of expressions; literals are compared as values. -/
def equals : Expr → Expr → Bool
  | .literal a, .literal b => a == b
  | .ident a, .ident b => a == b
  | .index a, .index b => a == b
  | .unary f a, .unary g b => f == g && a.equals b
  | .binary f a b, .binary g c d => f == g && a.equals c && b.equals d
  | .call f a, .call g b => f == g && equalsAll a b
  | .conditional a b c, .conditional x y z => a.equals x && b.equals y && c.equals z
  | _, _ => false

/-- Equality of lists of expressions. -/
def equalsAll : List Expr → List Expr → Bool
  | [], [] => true
  | a :: as, b :: bs => a.equals b && equalsAll as bs
  | _, _ => false

end

instance : BEq Expr := ⟨equals⟩

end Expr
end CharacterRules
