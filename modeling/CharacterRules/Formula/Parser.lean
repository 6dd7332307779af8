import CharacterRules.Formula.Basic
import CharacterRules.Formula.Lexer
import CharacterRules.Text.Quoted

/-!
The structure of formula text. From the loosest to the tightest, a formula is a conditional, a chain
of operators of one level, a prefix operator, and an atom. A part that cannot be completed is given
up and its text read again in another way; the error reported is where the furthest attempt stopped.
-/

namespace CharacterRules.Formula

/-- What is wrong with formula text. -/
inductive Fault where
  | unexpectedText (text : String)
  | unknownFunction (name : String)
  | unexpectedToken (token : Token)
  | unexpectedEnd
  deriving DecidableEq

/-- A fault with its place. -/
structure SyntaxFault where
  span : Span
  fault : Fault
  deriving DecidableEq

namespace Fault

def message : Fault → String
  | .unexpectedText text => "unexpected character: " ++ Text.quote text
  | .unknownFunction name => "unknown function: " ++ name
  | .unexpectedToken token => "found '" ++ token.display ++ "'"
  | .unexpectedEnd => "found end of input"

end Fault

/-- The message of a fault followed by its place. -/
def SyntaxFault.display (f : SyntaxFault) : String :=
  f.fault.message ++ " at " ++ toString f.span.start ++ ".." ++ toString f.span.stop

/-- A token with its place. -/
abbrev Located := Token × Span

/-- The outcome of reading a part of a formula. -/
structure Reading (α : Type) where
  /-- What was read, the faults found in it, and the tokens behind it. -/
  result : Option (α × List SyntaxFault × List Located)
  /-- The fewest tokens that were left when an attempt stopped. -/
  furthest : Nat

namespace Reading

/-- Nothing can be read at these tokens. -/
def stop {α : Type} (rest : List Located) : Reading α := ⟨none, rest.length⟩

/-- Something was read without a fault of its own. -/
def done {α : Type} (x : α) (faults : List SyntaxFault) (rest : List Located) : Reading α :=
  ⟨some (x, faults, rest), rest.length⟩

/-- Continues behind what was read; its faults precede those of the continuation. -/
def andThen {α β : Type} (r : Reading α) (next : α → List Located → Reading β) : Reading β :=
  match r.result with
  | none => ⟨none, r.furthest⟩
  | some (x, faults, rest) =>
    let s := next x rest
    ⟨s.result.map fun (y, more, rest) => (y, faults ++ more, rest), min r.furthest s.furthest⟩

/-- Takes another reading if this one failed. -/
def orElse {α : Type} (r : Reading α) (other : Unit → Reading α) : Reading α :=
  match r.result with
  | some _ => r
  | none =>
    let s := other ()
    ⟨s.result, min r.furthest s.furthest⟩

def map {α β : Type} (f : α → β) (r : Reading α) : Reading β :=
  ⟨r.result.map fun (x, faults, rest) => (f x, faults, rest), r.furthest⟩

end Reading

/-- Reads one symbol; the result is where it ends. -/
def readSymbol (s : Symbol) : List Located → Reading Nat
  | (.symbol t, span) :: rest =>
    if s = t then .done span.stop [] rest else .stop ((.symbol t, span) :: rest)
  | tokens => .stop tokens

def readQuoted : List Located → Reading String
  | (.text s, _) :: rest => .done s [] rest
  | tokens => .stop tokens

/-- The meaning of a name that stands alone. -/
def wordExpr (name : String) : Expr :=
  if name == "true" then .literal (.ofBool true)
  else if name == "false" then .literal (.ofBool false)
  else .ident name

/-- The operator of a level that the tokens begin with. -/
def operatorAt? (level : Nat) : List Located → Option (BinaryOp × List Located)
  | (.symbol s, _) :: rest => (s.binary?.filter fun op => op.level == level).map fun op => (op, rest)
  | _ => none

/-- The call of a named function whose arguments end at `stop`. -/
def callExpr (name : String) (start : Nat) (arguments : List Expr) (stop : Nat)
    (rest : List Located) : Reading Expr :=
  match Builtin.ofName? name with
  | some f => .done (.call f arguments) [] rest
  | none => .done (.ident name) [⟨⟨start, stop⟩, .unknownFunction name⟩] rest

mutual

/-- Reads a conditional, or a chain that is none. -/
def readConditional : Nat → List Located → Reading Expr
  | 0, tokens => .stop tokens
  | fuel + 1, tokens =>
    (readLevel fuel 0 tokens).andThen fun condition rest =>
      ((readSymbol .question rest).andThen fun _ rest =>
        (readConditional fuel rest).andThen fun whenTrue rest =>
          (readSymbol .colon rest).andThen fun _ rest =>
            (readConditional fuel rest).map fun whenFalse =>
              Expr.conditional condition whenTrue whenFalse).orElse
        fun _ => .done condition [] rest

/-- Reads a chain of operators of a level; behind the tightest level come prefix operators. -/
def readLevel : Nat → Nat → List Located → Reading Expr
  | 0, _, tokens => .stop tokens
  | fuel + 1, level, tokens =>
    if level ≤ 5 then
      (readLevel fuel (level + 1) tokens).andThen fun left rest => readChain fuel level left rest
    else readUnary fuel tokens

/-- Reads further operators of a level with their right operands. -/
def readChain : Nat → Nat → Expr → List Located → Reading Expr
  | 0, _, left, tokens => .done left [] tokens
  | fuel + 1, level, left, tokens =>
    match operatorAt? level tokens with
    | some (op, rest) =>
      let right := readLevel fuel (level + 1) rest
      match right.result with
      | some _ => right.andThen fun right rest => readChain fuel level (.binary op left right) rest
      -- the operator stays unread if no operand follows
      | none => ⟨some (left, [], tokens), min tokens.length right.furthest⟩
    | none => .done left [] tokens

/-- Reads prefix operators and the atom behind them. -/
def readUnary : Nat → List Located → Reading Expr
  | 0, tokens => .stop tokens
  | fuel + 1, tokens =>
    match tokens with
    | (.symbol s, _) :: rest =>
      match s.unary? with
      | some op => (readUnary fuel rest).map (Expr.unary op)
      | none => readAtom fuel tokens
    | _ => readAtom fuel tokens

/-- Reads a literal, a call, an attribute or a formula in parentheses. -/
def readAtom : Nat → List Located → Reading Expr
  | 0, tokens => .stop tokens
  | fuel + 1, tokens =>
    match tokens with
    | (.number n, _) :: rest => .done (.literal (.number n)) [] rest
    | (.text s, _) :: rest => .done (.literal (.text s)) [] rest
    -- a name is tried as that of a function first, and alone last
    | (.ident name, span) :: rest =>
      ((readSymbol .lParen rest).andThen fun _ rest =>
        (readArguments fuel rest).andThen fun arguments rest =>
          (readSymbol .rParen rest).andThen fun stop rest =>
            callExpr name span.start arguments stop rest).orElse fun _ =>
      (if name == "dict" then
        (readSymbol .lBracket rest).andThen fun _ rest =>
          (readQuoted rest).andThen fun key rest =>
            (readSymbol .rBracket rest).map fun _ => Expr.index key
      else .stop rest).orElse fun _ =>
      .done (wordExpr name) [] rest
    | (.symbol .lParen, _) :: rest =>
      (readConditional fuel rest).andThen fun inner rest =>
        (readSymbol .rParen rest).map fun _ => inner
    | tokens => .stop tokens

/-- Reads arguments separated by commas, of which there may be none; a comma may end the list. -/
def readArguments : Nat → List Located → Reading (List Expr)
  | 0, tokens => .stop tokens
  | fuel + 1, tokens =>
    ((readConditional fuel tokens).andThen fun first rest =>
      ((readSymbol .comma rest).andThen fun _ rest =>
        (readArguments fuel rest).map fun more => first :: more).orElse
        fun _ => .done [first] [] rest).orElse
      fun _ => .done [] [] tokens

end

/-- Reads all tokens as a formula; `length` is where the text ends. -/
def ofTokens (length : Nat) (tokens : List Located) : Except (List SyntaxFault) Expr :=
  -- from a conditional down to an atom there are nine readers, and a token is read on each way down
  let reading := readConditional (16 * (tokens.length + 1)) tokens
  let furthest : SyntaxFault :=
    -- an attempt that was given up may have come further than the reading that was kept
    let left := match reading.result with
      | some (_, _, rest) => min reading.furthest rest.length
      | none => reading.furthest
    match tokens.drop (tokens.length - left) with
    | (token, span) :: _ => ⟨span, .unexpectedToken token⟩
    | [] => ⟨⟨length, length⟩, .unexpectedEnd⟩
  match reading.result with
  | some (e, [], []) => .ok e
  | some (_, faults, []) => .error faults
  | some (_, faults, _) => .error (faults ++ [furthest])
  | none => .error [furthest]

/-- Reads formula text. Text that does not divide into tokens is not read further. -/
def parse (text : String) : Except (List SyntaxFault) Expr :=
  let lexemes := lex text
  let faults := lexemes.filterMap fun l =>
    if l.token.isNone then some ⟨l.span, .unexpectedText l.text⟩ else none
  if faults.isEmpty then
    ofTokens text.utf8ByteSize (lexemes.filterMap fun l => l.token.map (·, l.span))
  else .error faults

/-- Reads the formula of a rule: nothing or `null` passes the source through, a number is a constant,
and all else is an expression. Faults come with the text they were found in. -/
def parseRule : Option String → Except (String × List SyntaxFault) Formula
  | none => .ok .passThrough
  | some text =>
    let text := Text.trim text
    if text == "null" then .ok .passThrough
    else
      match Number.ofText? text with
      | some n => .ok (.literal (.number n))
      | none =>
        match parse text with
        | .ok e => .ok (.expr e)
        | .error faults => .error (text, faults)

end CharacterRules.Formula
