import CharacterRules.Unicode.Alphanumeric
import CharacterRules.Unicode.Case

/-!
Attribute keys made from the names of traits, and the keys of their notes.
-/

namespace CharacterRules.Note

/-- Drops what is neither letter nor numeral; the first character of a later word becomes a capital.
`capital` tells that a word begins, `first` that nothing is written yet. -/
def camelChars (first capital : Bool) : List Char → List Char
  | [] => []
  | c :: rest =>
    if !Unicode.alphanumeric.contains c then camelChars first (!first) rest
    else if first then Unicode.toLower c ++ camelChars false false rest
    else if capital then Unicode.toUpper c ++ camelChars false false rest
    else c :: camelChars false false rest

/-- The key of a name: words are joined, later ones with a capital, and the first character is in
lower case. -/
def attributeKey (name : String) : String := String.ofList (camelChars true false name.toList)

/-- The key of the note that a trait has in a section. -/
def noteKey (category name : String) : String := category ++ "Notes." ++ attributeKey name

/-- The key of a numbered part of a note. -/
def partKey (note : String) (number : Nat) : String := note ++ "." ++ toString number

end CharacterRules.Note
