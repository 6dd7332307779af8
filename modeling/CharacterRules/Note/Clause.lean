import CharacterRules.Note.Key
import CharacterRules.Number.Decimal
import CharacterRules.Text.Basic
import CharacterRules.Unicode.Digit
import CharacterRules.Unicode.Word

/-!
The clauses of notes and the phrasings that have a meaning for the rules: counts of powers,
computed placeholders, and changes of an attribute.
-/

namespace CharacterRules.Note

/-- The parts of a note between its slashes; slashes inside braces do not separate. -/
def splitSlashes (depth : Nat) : List Char → List (List Char)
  | [] => [[]]
  | c :: rest =>
    if c == '/' && depth == 0 then [] :: splitSlashes 0 rest
    else
      let depth :=
        if c == '\x7b' then depth + 1 else if c == '\x7d' then depth - 1 else depth
      match splitSlashes depth rest with
      | part :: parts => (c :: part) :: parts
      | [] => [[c]]

/-- The clauses of a note. -/
def splitClauses (note : String) : List String := (splitSlashes 0 note.toList).map String.ofList

/-- The amount that a clause gives: digits, a numbered value of the note, or its own value. -/
inductive AmountText where
  | digits (text : String)
  | reference (mark : Char)
  deriving DecidableEq

/-- Reads white space, of which there must be some. -/
def skipSpaces? : List Char → Option (List Char)
  | c :: rest => if Unicode.isSpace c then some (rest.dropWhile Unicode.isSpace) else none
  | [] => none

/-- Reads a word in any case; the long s is a case of the letter s. -/
def skipWord? (word text : List Char) : Option (List Char) :=
  let same (a b : Char) : Bool := Unicode.fold a == Unicode.fold b
  if word.length ≤ text.length && (word.zip text).all fun (a, b) => same a b then
    some (text.drop word.length)
  else none

/-- Whether a word ends in front of these characters, if a letter precedes them. -/
def wordEnds (rest : List Char) : Bool := !(rest.head?.any Unicode.word.contains)

/-- Reads an optional letter s at the end of a word. -/
def skipPlural? (rest : List Char) : Option (List Char) :=
  match skipWord? ['s'] rest with
  | some after => if wordEnds after then some after else none
  | none => if wordEnds rest then some rest else none

/-- The run of decimal digits in front, and what follows. -/
def spanDigits (text : List Char) : List Char × List Char :=
  (text.takeWhile Unicode.decimalDigit.contains, text.dropWhile Unicode.decimalDigit.contains)

/-- Whether a character refers to a value of the note. -/
def isReferenceMark (anyCase : Bool) (c : Char) : Bool :=
  c == 'V' || (anyCase && c == 'v') || ('1' ≤ c && c ≤ '9')

/-- What a clause counts. -/
inductive Counted where
  | powers
  | powerPoints
  deriving DecidableEq

/-- What a clause counts, from the word for it on. Points are meant only if one plain space stands
before their word. -/
def readCounted? (text : List Char) : Option Counted := do
  let afterPower ← skipWord? "power".toList text
  let points : Option Unit := do
    let rest ← skipSpaces? afterPower
    let rest ← skipWord? "point".toList rest
    let _ ← skipPlural? rest
    return ()
  match points with
  | some _ => some (if afterPower.head? == some ' ' &&
      (afterPower.drop 1).head?.any (fun c => !Unicode.isSpace c) then .powerPoints else .powers)
  | none =>
    let _ ← skipPlural? afterPower
    some .powers

/-- Reads a clause that grants a count of powers or power points. -/
def readCount? (clause : List Char) : Option (AmountText × Counted) := do
  let text := match clause with
    | '+' :: rest => rest
    | rest => rest
  let (amount, rest) ← match text with
    | '%' :: mark :: rest =>
      if isReferenceMark true mark then some (AmountText.reference mark, rest) else none
    | text =>
      match spanDigits text with
      | ([], _) => none
      | (digits, rest) => some (.digits (String.ofList digits), rest)
  let rest ← skipSpaces? rest
  let after (word : String) : Option Counted := do
    readCounted? (← skipSpaces? (← skipWord? word.toList rest))
  let counted ← (after "additional").orElse fun _ =>
    (after "new").orElse fun _ => readCounted? rest
  return (amount, counted)

/-- A part of a clause: plain text, or the inside of a placeholder. -/
inductive Piece where
  | text (s : String)
  | placeholder (expression : String)
  deriving DecidableEq

/-- Divides text at its first placeholder: what is before, inside and behind it. The inside is not
empty and ends at the first closing brace. -/
def findPlaceholder? : List Char → Option (List Char × List Char × List Char)
  | [] => none
  | c :: rest =>
    let here : Option (List Char × List Char × List Char) :=
      match c, rest with
      | '%', '\x7b' :: more =>
        match more.takeWhile (· != '\x7d'), more.dropWhile (· != '\x7d') with
        | [], _ => none
        | inside, _ :: after => some ([], inside, after)
        | _, [] => none
      | _, _ => none
    match here with
    | some found => some found
    | none =>
      (findPlaceholder? rest).map fun (before, inside, after) => (c :: before, inside, after)

/-- The pieces of a text, `fuel` placeholders at most. -/
def piecesWithin : Nat → List Char → List Piece
  | 0, text => [.text (String.ofList text)]
  | fuel + 1, text =>
    match findPlaceholder? text with
    | none => [.text (String.ofList text)]
    | some (before, inside, after) =>
      .text (String.ofList before) :: .placeholder (String.ofList inside) ::
        piecesWithin fuel after

def pieces (clause : List Char) : List Piece := piecesWithin clause.length clause

def hasPlaceholder (clause : List Char) : Bool := (findPlaceholder? clause).isSome

/-- How a clause changes an attribute. -/
inductive Change where
  | increase
  | decrease
  | multiply
  deriving DecidableEq

/-- A change of an attribute as a clause words it. -/
structure Delta where
  change : Change
  amount : AmountText
  phrase : String
  deriving DecidableEq

def readAmount? (text : List Char) : Option (AmountText × List Char) :=
  match text with
  | '%' :: mark :: rest =>
    if isReferenceMark false mark then some (.reference mark, rest) else none
  | text =>
    match spanDigits text with
    | ([], _) => none
    | (whole, '.' :: rest) =>
      match spanDigits rest with
      | ([], _) => none
      | (part, rest) => some (.digits (String.ofList (whole ++ '.' :: part)), rest)
    | (whole, rest) => some (.digits (String.ofList whole), rest)

/-- Reads a clause that changes an attribute: a sign, an amount and a phrase on one line, whose point
at the end is dropped. -/
def readDelta? (clause : List Char) : Option Delta := do
  let (change, rest) ← match clause with
    | '+' :: rest => some (Change.increase, rest)
    | '-' :: rest => some (.decrease, rest)
    | 'x' :: rest => some (.multiply, rest)
    | _ => none
  let (amount, rest) ← readAmount? rest
  let phrase ← skipSpaces? rest
  if phrase.isEmpty || phrase.contains '\n' then none
  else
    let phrase :=
      if 2 ≤ phrase.length && phrase.getLast? == some '.' then phrase.dropLast else phrase
    some ⟨change, amount, String.ofList phrase⟩

/-- The number a placeholder gets if it is the first of its note: one more than the highest number
that the text refers to. -/
def firstPlaceholder (text : List Char) : Nat :=
  go text + 1
where
  go : List Char → Nat
    | '%' :: d :: rest =>
      if '1' ≤ d && d ≤ '9' then max (d.toNat - '0'.toNat) (go rest) else go (d :: rest)
    | _ :: rest => go rest
    | [] => 0

end CharacterRules.Note
