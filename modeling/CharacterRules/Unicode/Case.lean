import CharacterRules.Unicode.CaseTable
import CharacterRules.Unicode.Cased

/-!
Case mapping of characters and text. A character may map to several; only the lower case of a
capital sigma depends on its neighbours.
-/

namespace CharacterRules.Unicode

/-- The run that holds a code point. -/
def runOf? (runs : Array CaseRun) (code : Nat) : Option CaseRun :=
  match bisect runs (fun run => run.first ≤ code) 0 runs.size with
  | 0 => none
  | n + 1 =>
    runs[n]?.filter fun run => code ≤ run.last && (code - run.first) % run.step == 0

/-- The character a code point maps to by a table of runs. -/
def mapCode (runs : Array CaseRun) (code : Nat) : Nat :=
  match runOf? runs code with
  | some run => ((code : Int) + run.offset).toNat
  | none => code

def toUpper (c : Char) : List Char :=
  if c.toNat < 128 then [c.toUpper]
  else
    match upperSequences.find? fun entry => entry.1 == c.toNat with
    | some (_, codes) => codes.map Char.ofNat
    | none => [Char.ofNat (mapCode upperRuns c.toNat)]

/-- The lower case of a character by itself. The dotted capital I keeps its dot. -/
def toLower (c : Char) : List Char :=
  if c.toNat < 128 then [c.toLower]
  else if c.toNat = 0x130 then ['i', Char.ofNat 0x307]
  else [Char.ofNat (mapCode lowerRuns c.toNat)]

/-- The code point that stands for all cases of a character. -/
def foldCode (code : Nat) : Nat := mapCode foldRuns code

def fold (c : Char) : Char := Char.ofNat (foldCode c.toNat)

/-- All characters with the folded form of the given one. -/
def caseOrbit (c : Char) : List Char :=
  let target := foldCode c.toNat
  let sources := foldRuns.toList.filterMap fun run =>
    let source := (target : Int) - run.offset
    if run.first ≤ source ∧ source ≤ run.last ∧ (source.toNat - run.first) % run.step = 0 then
      some (Char.ofNat source.toNat)
    else none
  Char.ofNat target :: sources

/-- Whether the first character that case rules do not look past has case. -/
def nextIsCased (text : List Char) : Bool :=
  match text.dropWhile caseIgnorable.contains with
  | [] => false
  | c :: _ => cased.contains c

/-- The lower case of a text, read after the characters of `before` in reverse order. A capital
sigma that ends a word of more than one letter becomes a final sigma. -/
def lowerAfter (before : List Char) : List Char → List Char
  | [] => []
  | c :: rest =>
    (if c.toNat = 0x3A3 then
      if nextIsCased before && !nextIsCased rest then [Char.ofNat 0x3C2] else [Char.ofNat 0x3C3]
    else toLower c) ++ lowerAfter (c :: before) rest

def lowercase (text : String) : String := String.ofList (lowerAfter [] text.toList)

end CharacterRules.Unicode
