import CharacterRules.Number.Decimal
import CharacterRules.Text.Basic
import CharacterRules.Text.Quoted
import Std.Data.TreeMap

/-!
Attribute lists: fields separated by white space, each a name and an equals sign with values behind it
that commas separate. A value with white space, commas, quotes or equals signs is quoted.
-/

namespace CharacterRules

/-- The fields of a content entry with their values. -/
structure Entry where
  fields : Std.TreeMap String (List String) := {}

namespace Entry

/-- What is wrong with an attribute list. -/
inductive Fault where
  | unterminatedQuote
  | unexpectedCharacter (text : String)
  | expectedField
  | expectedValue
  | expectedSeparator
  deriving DecidableEq

def Fault.message : Fault → String
  | .unterminatedQuote => "unterminated quoted value"
  | .unexpectedCharacter text => "unexpected character " ++ Text.quote text
  | .expectedField => "expected a field name"
  | .expectedValue => "expected a value"
  | .expectedSeparator => "expected ',' or whitespace"

/-- A fault with the byte position of the token it is at. -/
structure ListFault where
  offset : Nat
  fault : Fault
  deriving DecidableEq

/-- The tokens of an attribute list. -/
inductive Token where
  | field (name : String)
  | quoted (value : String)
  | bare (value : String)
  | comma
  | space
  | bad (fault : Fault)

def isNameChar (c : Char) : Bool := c.isAlphanum || c == '_'

/-- Whether a character may stand in a value without quotes. -/
def isBareChar (c : Char) : Bool := !(Unicode.isSpace c || c == ',' || c == '"' || c == '=')

/-- Reads a quoted value behind its opening quote: the value, how many characters it takes with the
closing quote, and nothing if that is missing. A backslash takes the next character as it is, unless
that is a line break. -/
def readQuoted? : List Char → Option (List Char × Nat)
  | [] => none
  | [c] => if c == '"' then some ([], 1) else none
  | c :: d :: rest =>
    if c == '"' then some ([], 1)
    else if c == '\\' then
      if d == '\n' then none
      else (readQuoted? rest).map fun (value, length) => (d :: value, length + 2)
    else (readQuoted? (d :: rest)).map fun (value, length) => (c :: value, length + 1)

/-- The token that begins with `c`, and how many of the following characters belong to it. -/
def token (c : Char) (rest : List Char) : Token × Nat :=
  if Unicode.isSpace c then (.space, (rest.takeWhile Unicode.isSpace).length)
  else if c == ',' then (.comma, 0)
  else if c == '"' then
    match readQuoted? rest with
    | some (value, length) => (.quoted (String.ofList value), length)
    | none => (.bad .unterminatedQuote, 0)
  else if c == '=' then (.bad (.unexpectedCharacter "="), 0)
  else
    let bare := rest.takeWhile isBareChar
    let text := c :: bare
    if text.all isNameChar && (rest.drop bare.length).head? == some '=' then
      (.field (String.ofList text), bare.length + 1)
    else (.bare (String.ofList text), bare.length)

/-- What may come next. -/
inductive Expected where
  | field
  | value (name : String)
  | separator (name : String)

/-- Adds a field without values, if it is not there. -/
def addField (e : Entry) (name : String) : Entry :=
  { e with fields := e.fields.insertIfNew name [] }

/-- Adds a value to a field. -/
def addValue (e : Entry) (name value : String) : Entry :=
  { e with fields := e.fields.insert name (e.fields.getD name [] ++ [value]) }

/-- The entry and the expectation behind a token. -/
def step (e : Entry) : Expected → Token → Except Fault (Entry × Expected)
  | _, .bad fault => .error fault
  | .field, .space => .ok (e, .field)
  | .field, .field name => .ok (e.addField name, .value name)
  | .field, _ => .error .expectedField
  | .value name, .quoted value => .ok (e.addValue name value, .separator name)
  | .value name, .bare value => .ok (e.addValue name value, .separator name)
  | .value name, .comma => .ok (e.addValue name "", .value name)
  | .value name, .space => .ok (e.addValue name "", .field)
  | .value _, .field _ => .error .expectedValue
  | .separator name, .comma => .ok (e, .value name)
  | .separator _, .space => .ok (e, .field)
  | .separator _, _ => .error .expectedSeparator

/-- The entry at the end of the text: a value that is still expected is empty. -/
def finish (e : Entry) : Expected → Entry
  | .value name => e.addValue name ""
  | _ => e

/-- Reads the rest of an attribute list from byte `offset` on. -/
def readFrom (offset : Nat) (e : Entry) (expected : Expected) :
    List Char → Except ListFault Entry
  | [] => .ok (e.finish expected)
  | c :: rest =>
    let (token, length) := token c rest
    match e.step expected token with
    | .error fault => .error ⟨offset, fault⟩
    | .ok (e, expected) =>
      readFrom (offset + c.utf8Size + Text.byteLength (rest.take length)) e expected
        (rest.drop length)
termination_by text => text.length
decreasing_by simp only [List.length_cons, List.length_drop]; omega

def ofText (text : String) : Except ListFault Entry := readFrom 0 {} .field text.toList

/-- All values of a field; none if the field is absent. -/
def values (e : Entry) (field : String) : List String := e.fields.getD field []

def value? (e : Entry) (field : String) : Option String := (e.values field).head?

def has (e : Entry) (field : String) : Bool := e.fields.contains field

/-- The value of a numeric field, if it is present; a value that is no number is the error. -/
def number? (e : Entry) (field : String) : Except String (Option Number) :=
  match e.value? field with
  | none => .ok none
  | some text =>
    match Number.ofText? (Text.trim text) with
    | some n => .ok (some n)
    | none => .error text

end Entry
end CharacterRules
