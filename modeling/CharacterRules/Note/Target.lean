import CharacterRules.Note.Key
import CharacterRules.Rule.Graph
import Std.Data.TreeSet

/-!
The attributes that phrases of notes name.
-/

namespace CharacterRules

/-- The names that phrases can refer to. Attributes are in lower case. -/
structure TargetNames where
  attributes : Std.TreeSet String := {}
  skills : Std.TreeSet String := {}
  stats : Std.TreeSet String := {}

namespace TargetNames

def addAttribute (names : TargetNames) (name : String) : TargetNames :=
  { names with attributes := names.attributes.insert (Unicode.lowercase name) }

def addSkill (names : TargetNames) (name : String) : TargetNames :=
  { names with skills := names.skills.insert name }

def addStat (names : TargetNames) (key : String) : TargetNames :=
  { names with stats := names.stats.insert key }

/-- Equality of texts that ignores the case of ASCII letters. -/
def sameLetters (a b : List Char) : Bool := a.map Char.toLower == b.map Char.toLower

/-- The first skill whose name is the phrase up to the case of ASCII letters. -/
def skill? (names : TargetNames) (phrase : List Char) : Option String :=
  names.skills.toList.find? fun s => sameLetters s.toList phrase

/-- The attribute whose name is the phrase up to case. -/
def attribute? (names : TargetNames) (phrase : List Char) : Option String :=
  let lower := String.ofList (Unicode.lowerAfter [] phrase)
  if names.attributes.contains lower then some lower else none

/-- Removes a remark in parentheses from the end of a phrase, with the white space around it. The
text is in reverse, from the closing parenthesis on; the remark begins at the farthest opening
parenthesis that no closing one follows. -/
def beforeRemark? : List Char → Option (List Char)
  | [] => none
  | c :: rest =>
    if c == ')' then none
    else
      match beforeRemark? rest with
      | some before => some before
      | none => if c == '(' then some (rest.dropWhile Unicode.isSpace) else none

/-- The phrase without a remark in parentheses at its end. -/
def withoutRemark (phrase : List Char) : List Char :=
  match phrase.reverse.dropWhile Unicode.isSpace with
  | ')' :: rest => ((beforeRemark? rest).map List.reverse).getD phrase
  | _ => phrase

/-- What precedes the word that makes a phrase mean the step of an attribute. -/
def stepped? (phrase : List Char) : Option (List Char) :=
  -- the five characters of the word with the space in front of it
  let base := phrase.take (phrase.length - 5)
  if !base.isEmpty && sameLetters (phrase.drop base.length) " step".toList then
    some (Text.trimChars base)
  else none

/-- The phrase without remark, white space and points around it. -/
def bare (phrase : String) : List Char :=
  Text.dropEndWhile (· == '.')
    (Text.trimChars (withoutRemark (Text.trimChars phrase.toList)))

/-- The key of the attribute that a phrase names: the step of a skill or attribute, the modifier of
one, or a statistic or target of the rules. -/
def canonicalize (names : TargetNames) (g : RuleGraph) (phrase : String) : Option String :=
  let phrase := bare phrase
  match stepped? phrase with
  | some base =>
    match names.skill? base with
    | some s => some ("skillStep." ++ s)
    | none => (names.attribute? base).map (· ++ "Step")
  | none =>
    match names.skill? phrase with
    | some s => some ("skillModifier." ++ s)
    | none =>
      match names.attribute? phrase with
      | some a => some (a ++ "Modifier")
      | none =>
        let key := Note.attributeKey (String.ofList phrase)
        if key != "" && (names.stats.contains key || g.hasTarget key) then some key else none

end TargetNames
end CharacterRules
