import CharacterRules.Formula.Token
import CharacterRules.Text.Span

/-!
The division of formula text into tokens. At each place the longest token is taken; a character that
begins none is a lexeme of its own, as is a quoted text that is not closed.
-/

namespace CharacterRules.Formula

/-- Whether a character may begin a part of a name. -/
def isNameStart (c : Char) : Bool :=
  ('a' ≤ c && c ≤ 'z') || ('A' ≤ c && c ≤ 'Z') || c == '_' || c == '$'

/-- Whether a character may continue a part of a name. -/
def isNamePart (c : Char) : Bool := isNameStart c || c.isDigit

/-- Whether a character only separates tokens. -/
def isBlank (c : Char) : Bool := c == ' ' || c == '\t' || c == '\r' || c == '\n'

/-- The count of characters in front that continue a name. -/
def nameLength : List Char → Nat
  | [] => 0
  | [c] => if isNamePart c then 1 else 0
  | c :: d :: rest =>
    if isNamePart c then nameLength (d :: rest) + 1
    else if c == '.' && isNameStart d then nameLength rest + 2
    else 0

/-- The count of digits in front. -/
def digitsLength (text : List Char) : Nat := (text.takeWhile Char.isDigit).length

/-- The count of characters in front that form a point with digits behind it. -/
def fractionLength : List Char → Nat
  | '.' :: rest => if digitsLength rest = 0 then 0 else digitsLength rest + 1
  | _ => 0

/-- The count of characters in front up to the closing `quote`, and whether there is one. A backslash
takes the next character with it, unless that is a line break. -/
def quotedLength (quote : Char) : List Char → Nat × Bool
  | [] => (0, false)
  | [c] => if c == quote then (1, true) else if c == '\\' then (0, false) else (1, false)
  | c :: d :: rest =>
    if c == quote then (1, true)
    else if c == '\\' then
      if d == '\n' then (0, false)
      else
        let (length, closed) := quotedLength quote rest
        (length + 2, closed)
    else
      let (length, closed) := quotedLength quote (d :: rest)
      (length + 1, closed)

/-- The symbol that begins with a character, and how many further characters it takes. -/
def symbolAt? (c : Char) (rest : List Char) : Option (Symbol × Nat) :=
  match c, rest with
  | '=', '=' :: '=' :: _ => some (.eqEq, 2)
  | '=', '=' :: _ => some (.eqEq, 1)
  | '!', '=' :: '=' :: _ => some (.notEq, 2)
  | '!', '=' :: _ => some (.notEq, 1)
  | '!', _ => some (.bang, 0)
  | '<', '=' :: _ => some (.ltEq, 1)
  | '<', _ => some (.lt, 0)
  | '>', '=' :: _ => some (.gtEq, 1)
  | '>', _ => some (.gt, 0)
  | '&', '&' :: _ => some (.andAnd, 1)
  | '|', '|' :: _ => some (.orOr, 1)
  | '+', _ => some (.plus, 0)
  | '-', _ => some (.minus, 0)
  | '*', _ => some (.star, 0)
  | '/', _ => some (.slash, 0)
  | '%', _ => some (.percent, 0)
  | '?', _ => some (.question, 0)
  | ':', _ => some (.colon, 0)
  | '(', _ => some (.lParen, 0)
  | ')', _ => some (.rParen, 0)
  | '[', _ => some (.lBracket, 0)
  | ']', _ => some (.rBracket, 0)
  | ',', _ => some (.comma, 0)
  | _, _ => none

/-- The text without backslashes, except those that stand behind another. -/
def unescape : List Char → List Char
  | [] => []
  | [c] => if c == '\\' then [] else [c]
  | c :: d :: rest => if c == '\\' then d :: unescape rest else c :: unescape (d :: rest)

def numeral (text : List Char) : Number := (Number.ofText? (String.ofList text)).getD 0

/-- The lexeme that begins with `c`: its token, if it is one, and how many of the following
characters belong to it. -/
def lexeme (c : Char) (rest : List Char) : Option Token × Nat :=
  if isNameStart c then
    let length := nameLength rest
    (some (.ident (String.ofList (c :: rest.take length))), length)
  else if c.isDigit then
    let whole := digitsLength rest
    let length := whole + fractionLength (rest.drop whole)
    (some (.number (numeral (c :: rest.take length))), length)
  else if c == '.' && digitsLength rest != 0 then
    let length := digitsLength rest
    (some (.number (numeral (c :: rest.take length))), length)
  else if c == '"' || c == '\'' then
    let (length, closed) := quotedLength c rest
    if closed then (some (.text (String.ofList (unescape (rest.take (length - 1))))), length)
    else (none, length)
  else
    match symbolAt? c rest with
    | some (s, length) => (some (.symbol s), length)
    | none => (none, 0)

/-- A token, or a stretch of text that is none, with its place. -/
structure Lexeme where
  token : Option Token
  text : String
  span : Span

/-- The lexemes of a text that begins at byte `start`. -/
def lexFrom (start : Nat) : List Char → List Lexeme
  | [] => []
  | c :: rest =>
    if isBlank c then lexFrom (start + c.utf8Size) rest
    else
      let (token, length) := lexeme c rest
      let text := c :: rest.take length
      let stop := start + Text.byteLength text
      ⟨token, String.ofList text, ⟨start, stop⟩⟩ :: lexFrom stop (rest.drop length)
termination_by text => text.length
decreasing_by all_goals simp only [List.length_cons, List.length_drop]; omega

def lex (text : String) : List Lexeme := lexFrom 0 text.toList

end CharacterRules.Formula
