import CharacterRules.Catalog.Entry
import CharacterRules.Formula.Parser
import CharacterRules.Prerequisite.Parser

/-!
What can be wrong with content, and the messages that report it.
-/

namespace CharacterRules

/-- Why an entry whose fields can be read is unusable. -/
inductive EntryDefect where
  | valueWithoutSection
  | unknownSeverity
  deriving DecidableEq

def EntryDefect.message : EntryDefect → String
  | .valueWithoutSection => "NoteValue without a Section"
  | .unknownSeverity => "Severity must be Major or Minor"

/-- What is wrong with a piece of content. -/
inductive ContentError where
  | unknownOperator (text : String)
  | malformedEntry (fault : Entry.ListFault)
  | notANumber (field value : String)
  | formula (text : String) (faults : List Formula.SyntaxFault)
  | prerequisite (fault : Prerequisite.TextFault)
  | mismatchedNotes (name : String) (sections notes : Nat)
  | unknownCategory (name : String)
  | invalidEntry (table name : String) (defect : EntryDefect)

namespace ContentError

def message : ContentError → String
  | .unknownOperator text => "unknown operator: " ++ Text.quote text
  | .malformedEntry f =>
    "malformed attribute list at byte " ++ toString f.offset ++ ": " ++ f.fault.message
  | .notANumber field value => "field " ++ field ++ " is not a number: " ++ Text.quote value
  | .formula text faults =>
    "invalid formula " ++ Text.quote text ++ ": " ++
      (faults.head?.elim "syntax error" Formula.SyntaxFault.display)
  | .prerequisite f =>
    "invalid prerequisite " ++ Text.quote f.text ++ ": " ++ f.fault.message
  | .mismatchedNotes name sections notes =>
    name ++ ": " ++ toString sections ++ " section(s) but " ++ toString notes ++ " note(s)"
  | .unknownCategory name => "unknown category: " ++ name
  | .invalidEntry table name defect => table ++ "." ++ name ++ ": " ++ defect.message

end ContentError
end CharacterRules
