import CharacterRules.Json.Basic

/-!
The reading of JSON text. A number with more digits than fit in 64 bits keeps the leading ones; its
significand is then scaled by a power of ten, which may be off by a rounding.
-/

namespace CharacterRules.Json

def skipSpace (text : List Char) : List Char :=
  text.dropWhile fun c => c == ' ' || c == '\t' || c == '\n' || c == '\r'

/-- The bound of the digits that are kept. -/
def significandBound : Nat := 2 ^ 64

/-- The significand and the count of digits in a run of digits, and the text behind it. Digits that
would pass the bound are not kept. -/
structure Digits where
  significand : Nat
  /-- How many digits of the run are part of the significand. -/
  kept : Nat
  /-- How many digits of the run are not. -/
  dropped : Nat
  rest : List Char

/-- Reads a run of digits on top of a significand; `full` tells that a digit was dropped. -/
def readDigits (significand : Nat) (full : Bool) : List Char → Digits
  | [] => ⟨significand, 0, 0, []⟩
  | c :: rest =>
    if '0' ≤ c ∧ c ≤ '9' then
      let next := significand * 10 + (c.toNat - '0'.toNat)
      if full || significandBound ≤ next then
        let d := readDigits significand true rest
        { d with dropped := d.dropped + 1 }
      else
        let d := readDigits next false rest
        { d with kept := d.kept + 1 }
    else ⟨significand, 0, 0, c :: rest⟩

/-- Divides by `10 ^ 308` while the exponent is below the powers of ten at hand. -/
def lower : Nat → Number → Int → Number × Int
  | 0, f, exponent => (f, exponent)
  | fuel + 1, f, exponent =>
    if -308 ≤ exponent || f.isZero then (f, exponent)
    else lower fuel (f / Number.ofNat (10 ^ 308)) (exponent + 308)

/-- A significand times a power of ten, if that is in range. -/
def scale? (significand : Nat) (exponent : Int) : Option Number :=
  let (f, exponent) := lower 4 (.ofNat significand) exponent
  if f.isZero then some f
  else if 308 < exponent then none
  else
    match exponent with
    | .ofNat k =>
      let product := f * Number.ofNat (10 ^ k)
      if product.isFinite then some product else none
    | .negSucc k => some (f / Number.ofNat (10 ^ (k + 1)))

/-- Reads an exponent, if there is one: its value, whether it is there, and the text behind it. -/
def readExponent? (text : List Char) : Option (Int × Bool × List Char) :=
  match text with
  | c :: rest =>
    if c = 'e' ∨ c = 'E' then
      let (negative, rest) := match rest with
        | '-' :: rest => (true, rest)
        | '+' :: rest => (false, rest)
        | rest => (false, rest)
      let digits := rest.takeWhile Char.isDigit
      if digits.isEmpty then none
      else
        let value := digits.foldl (fun value c => value * 10 + (c.toNat - '0'.toNat)) 0
        some (Number.signed negative value, true, rest.dropWhile Char.isDigit)
    else some (0, false, text)
  | [] => some (0, false, [])

/-- Reads a number without its sign. -/
def readUnsigned? (text : List Char) : Option (Number × List Char) := do
  let whole := readDigits 0 false text
  guard (0 < whole.kept + whole.dropped)
  -- a zero in front stands alone
  guard (text.head? != some '0' || whole.kept + whole.dropped = 1)
  match whole.rest with
  | '.' :: rest =>
    let part := readDigits whole.significand (0 < whole.dropped) rest
    guard (0 < part.kept + part.dropped)
    let (exponent, _, rest) ← readExponent? part.rest
    let n ← scale? part.significand ((whole.dropped : Int) - part.kept + exponent)
    return (n, rest)
  | rest =>
    let (exponent, present, rest) ← readExponent? rest
    if !present && whole.dropped = 0 then return (.ofNat whole.significand, rest)
    else
      let n ← scale? whole.significand (whole.dropped + exponent)
      return (n, rest)

def readNumber? : List Char → Option (Number × List Char)
  | '-' :: rest => (readUnsigned? rest).map fun (n, rest) => (-n, rest)
  | text => readUnsigned? text

def hexValue? (c : Char) : Option Nat :=
  if '0' ≤ c ∧ c ≤ '9' then some (c.toNat - '0'.toNat)
  else if 'a' ≤ c ∧ c ≤ 'f' then some (c.toNat - 'a'.toNat + 10)
  else if 'A' ≤ c ∧ c ≤ 'F' then some (c.toNat - 'A'.toNat + 10)
  else none

/-- Reads four hexadecimal digits. -/
def readUnit? : List Char → Option (Nat × List Char)
  | a :: b :: c :: d :: rest => do
    let a ← hexValue? a
    let b ← hexValue? b
    let c ← hexValue? c
    let d ← hexValue? d
    return (((a * 16 + b) * 16 + c) * 16 + d, rest)
  | _ => none

/-- Reads a character given by one unit, or by a pair of them. -/
def readEscapedUnit? (text : List Char) : Option (Char × List Char) := do
  let (unit, rest) ← readUnit? text
  if unit < 0xD800 || 0xE000 ≤ unit then return (Char.ofNat unit, rest)
  -- the second unit of a pair cannot come first
  else if 0xDC00 ≤ unit then none
  else
    match rest with
    | '\\' :: 'u' :: rest =>
      let (low, rest) ← readUnit? rest
      if 0xDC00 ≤ low && low < 0xE000 then
        return (Char.ofNat (0x10000 + (unit - 0xD800) * 0x400 + (low - 0xDC00)), rest)
      else none
    | _ => none

/-- Reads the character that a backslash begins. -/
def readEscape? : List Char → Option (Char × List Char)
  | '"' :: rest => some ('"', rest)
  | '\\' :: rest => some ('\\', rest)
  | '/' :: rest => some ('/', rest)
  | 'b' :: rest => some ('\x08', rest)
  | 'f' :: rest => some ('\x0c', rest)
  | 'n' :: rest => some ('\n', rest)
  | 'r' :: rest => some ('\r', rest)
  | 't' :: rest => some ('\t', rest)
  | 'u' :: rest => readEscapedUnit? rest
  | _ => none

/-- Reads a string behind its opening quote, `fuel` characters at most; `read` holds the characters
so far in reverse. -/
def readString? : Nat → List Char → List Char → Option (String × List Char)
  | 0, _, _ => none
  | _, _, [] => none
  | fuel + 1, read, c :: rest =>
    if c = '"' then some (String.ofList read.reverse, rest)
    else if c = '\\' then
      match readEscape? rest with
      | some (c, rest) => readString? fuel (c :: read) rest
      | none => none
    else if c.toNat < 32 then none
    else readString? fuel (c :: read) rest

def readWord? (word text : List Char) : Option (List Char) :=
  if word.isPrefixOf text then some (text.drop word.length) else none

mutual

/-- Reads a document in front of a text. -/
def readValue? : Nat → List Char → Option (Json × List Char)
  | 0, _ => none
  | fuel + 1, text =>
    match skipSpace text with
    | 'n' :: rest => (readWord? "ull".toList rest).map fun rest => (null, rest)
    | 't' :: rest => (readWord? "rue".toList rest).map fun rest => (bool true, rest)
    | 'f' :: rest => (readWord? "alse".toList rest).map fun rest => (bool false, rest)
    | '"' :: rest => (readString? (rest.length + 1) [] rest).map fun (s, rest) => (string s, rest)
    | '[' :: rest =>
      match skipSpace rest with
      | ']' :: rest => some (array [], rest)
      | rest => (readItems? fuel rest).map fun (items, rest) => (array items, rest)
    | '\x7b' :: rest =>
      match skipSpace rest with
      | '\x7d' :: rest => some (object [], rest)
      | rest => (readMembers? fuel rest).map fun (members, rest) => (object members, rest)
    | rest => (readNumber? rest).map fun (n, rest) => (number n, rest)

/-- Reads the items of an array up to its closing bracket; there is at least one. -/
def readItems? : Nat → List Char → Option (List Json × List Char)
  | 0, _ => none
  | fuel + 1, text => do
    let (item, rest) ← readValue? fuel text
    match skipSpace rest with
    | ']' :: rest => return ([item], rest)
    | ',' :: rest =>
      let (items, rest) ← readItems? fuel rest
      return (item :: items, rest)
    | _ => none

/-- Reads the members of an object up to its closing brace; there is at least one. -/
def readMembers? : Nat → List Char → Option (List (String × Json) × List Char)
  | 0, _ => none
  | fuel + 1, text =>
    match skipSpace text with
    | '"' :: rest => do
      let (key, rest) ← readString? (rest.length + 1) [] rest
      match skipSpace rest with
      | ':' :: rest =>
        let (value, rest) ← readValue? fuel rest
        match skipSpace rest with
        | '\x7d' :: rest => return ([(key, value)], rest)
        | ',' :: rest =>
          let (members, rest) ← readMembers? fuel rest
          return ((key, value) :: members, rest)
        | _ => none
      | _ => none
    | _ => none

end

/-- Reads a whole text as one document. -/
def ofText? (text : String) : Option Json := do
  let characters := text.toList
  let (document, rest) ← readValue? (2 * characters.length + 2) characters
  if (skipSpace rest).isEmpty then some document else none

end CharacterRules.Json
