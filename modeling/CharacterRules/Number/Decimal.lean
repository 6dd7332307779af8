import CharacterRules.Number.Basic

/-!
Decimal text of numbers. A decimal numeral denotes an exact rational, and reading gives the
nearest number.
-/

namespace CharacterRules.Number

/-- The number nearest to `± digits · 10 ^ exponent`, where `digits` has at most `width` decimal
digits. Exponents that decide the result alone are not computed with. -/
def ofDecimal (negative : Bool) (digits width : Nat) (exponent : Int) : Number :=
  if digits = 0 then signedZero negative
  -- ten to the 400 is above all finite numbers, and its inverse rounds to zero
  else if 400 < exponent then .infinity negative
  else if exponent + width < -400 then signedZero negative
  else
    match exponent with
    | .ofNat k => roundDyadic negative (digits * 10 ^ k) 0 false
    | .negSucc k => ofRatio negative digits (10 ^ (k + 1))

def digit? (c : Char) : Option Nat :=
  if '0' ≤ c ∧ c ≤ '9' then some (c.toNat - '0'.toNat) else none

/-- The longest run of ASCII decimal digits in front: its value on top of `value`, its length on
top of `width`, and the rest. -/
def readDigits (value width : Nat) : List Char → Nat × Nat × List Char
  | [] => (value, width, [])
  | c :: rest =>
    match digit? c with
    | some d => readDigits (value * 10 + d) (width + 1) rest
    | none => (value, width, c :: rest)

/-- An optional sign in front. -/
def readSign : List Char → Bool × List Char
  | '+' :: rest => (false, rest)
  | '-' :: rest => (true, rest)
  | rest => (false, rest)

/-- An exponent mark with its exponent that ends the text; nothing is exponent zero. -/
def readExponent? : List Char → Option Int
  | [] => some 0
  | c :: rest =>
    if c = 'e' ∨ c = 'E' then
      let (negative, rest) := readSign rest
      match readDigits 0 0 rest with
      | (value, _ + 1, []) => some (signed negative value)
      | _ => none
    else none

/-- An unsigned decimal numeral: digits with an optional point and at least one digit, and an
optional exponent. -/
def readUnsigned? (negative : Bool) (text : List Char) : Option Number :=
  let (whole, wholeWidth, rest) := readDigits 0 0 text
  let (digits, width, rest) :=
    match rest with
    | '.' :: rest => readDigits whole wholeWidth rest
    | rest => (whole, wholeWidth, rest)
  if width = 0 then none
  else
    (readExponent? rest).map fun exponent =>
      ofDecimal negative digits width (exponent - (width - wholeWidth : Nat))

/-- Reads a whole text as a number: an optional sign, then a decimal numeral, or a word for
infinity or not-a-number in any case. -/
def ofText? (text : String) : Option Number :=
  let (negative, rest) := readSign text.toList
  match String.ofList (rest.map Char.toLower) with
  | "inf" | "infinity" => some (.infinity negative)
  | "nan" => some .nan
  | _ => readUnsigned? negative rest

end CharacterRules.Number
