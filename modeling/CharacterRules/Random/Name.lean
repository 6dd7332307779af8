import CharacterRules.Random.Basic
import CharacterRules.Unicode.Case

/-!
Random names of characters, made of two or three syllables.
-/

namespace CharacterRules.Random

def syllables : List String :=
  ["a", "bel", "dor", "e", "fen", "gal", "is", "ka", "lin", "mar", "nor", "o", "ra", "sel", "tha",
    "ul", "ven", "wyn", "ya", "zor"]

/-- The characters of `count` random syllables. -/
def drawSyllables : Nat → Random → List Char × Random
  | 0, r => ([], r)
  | count + 1, r =>
    let (syllable, r) := r.choose? syllables
    let (rest, r) := drawSyllables count r
    ((syllable.getD "").toList ++ rest, r)

/-- The characters with the first one in upper case. -/
def capitalize : List Char → List Char
  | [] => []
  | c :: rest => Unicode.toUpper c ++ rest

def name (r : Random) : String × Random :=
  let (more, r) := r.below 2
  let (letters, r) := drawSyllables (2 + more) r
  (String.ofList (capitalize letters), r)

end CharacterRules.Random
