import CharacterRules.Number.Decimal
import CharacterRules.Number.Text
import CharacterRules.Text.Basic

/-!
The values of attributes. A value is a number or a text, and text that reads as a number also
counts as one.
-/

namespace CharacterRules

/-- The value of an attribute. -/
inductive Value where
  | number (n : Number)
  | text (s : String)
  deriving DecidableEq

namespace Value

/-- Values of one kind are equal if their contents are; not-a-number differs from itself. -/
instance : BEq Value where
  beq
    | .number a, .number b => a == b
    | .text a, .text b => a == b
    | _, _ => false

instance : Inhabited Value := ⟨.number 0⟩

def ofBool (b : Bool) : Value := .number (.ofBool b)

/-- The number a value stands for: text counts without the white space around it. -/
def number? : Value → Option Number
  | .number n => some n
  | .text s => Number.ofText? (Text.trim s)

def text? : Value → Option String
  | .number _ => none
  | .text s => some s

/-- Whether a value counts as true: a number other than zero, or a text that is not empty. -/
def isTruthy : Value → Bool
  | .number n => !(n.isZero || n.isNaN)
  | .text s => s != ""

/-- The text shown for a value. -/
def display : Value → String
  | .number n => n.display
  | .text s => s

end Value

/-- The number behind an attribute that may be absent; zero if there is none. -/
def numberOrZero (v : Option Value) : Number := (v.bind Value.number?).getD 0

/-- Whether an attribute is present and counts as true. -/
def truthy (v : Option Value) : Bool := v.any Value.isTruthy

/-- The text of an attribute that may be absent. -/
def textOrEmpty (v : Option Value) : String := (v.map Value.display).getD ""

end CharacterRules
