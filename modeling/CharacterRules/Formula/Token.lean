import CharacterRules.Formula.Expr

/-!
The tokens of formula text.
-/

namespace CharacterRules

inductive Symbol where
  | plus
  | minus
  | star
  | slash
  | percent
  | eqEq
  | notEq
  | ltEq
  | gtEq
  | lt
  | gt
  | andAnd
  | orOr
  | bang
  | question
  | colon
  | lParen
  | rParen
  | lBracket
  | rBracket
  | comma
  deriving DecidableEq

inductive Token where
  | number (n : Number)
  /-- A quoted text without its escapes. -/
  | text (s : String)
  /-- A name, whose parts may be joined by points. -/
  | ident (name : String)
  | symbol (s : Symbol)
  deriving DecidableEq

namespace Symbol

def display : Symbol → String
  | .plus => "+"
  | .minus => "-"
  | .star => "*"
  | .slash => "/"
  | .percent => "%"
  | .eqEq => "=="
  | .notEq => "!="
  | .ltEq => "<="
  | .gtEq => ">="
  | .lt => "<"
  | .gt => ">"
  | .andAnd => "&&"
  | .orOr => "||"
  | .bang => "!"
  | .question => "?"
  | .colon => ":"
  | .lParen => "("
  | .rParen => ")"
  | .lBracket => "["
  | .rBracket => "]"
  | .comma => ","

/-- The operator a symbol stands for between two operands. -/
def binary? : Symbol → Option BinaryOp
  | .plus => some .add
  | .minus => some .sub
  | .star => some .mul
  | .slash => some .div
  | .percent => some .rem
  | .eqEq => some .eq
  | .notEq => some .ne
  | .ltEq => some .le
  | .gtEq => some .ge
  | .lt => some .lt
  | .gt => some .gt
  | .andAnd => some .and
  | .orOr => some .or
  | _ => none

/-- The operator a symbol stands for in front of an operand. -/
def unary? : Symbol → Option UnaryOp
  | .minus => some .neg
  | .bang => some .not
  | _ => none

end Symbol

/-- The text of a token. A quoted text is shown without escapes. -/
def Token.display : Token → String
  | .number n => n.positional
  | .text s => "\"" ++ s ++ "\""
  | .ident name => name
  | .symbol s => s.display

/-- The precedence of an operator, from the loosest to the tightest. -/
def BinaryOp.level : BinaryOp → Nat
  | .or => 0
  | .and => 1
  | .eq | .ne => 2
  | .le | .ge | .lt | .gt => 3
  | .add | .sub => 4
  | .mul | .div | .rem => 5

end CharacterRules
