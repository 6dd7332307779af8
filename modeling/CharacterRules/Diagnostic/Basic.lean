import CharacterRules.Catalog.Issue
import CharacterRules.Error

/-!
Diagnostics: messages about a place in a text.
-/

namespace CharacterRules

/-- A message about a place in a text. -/
structure Diagnostic where
  severity : Severity
  span : Span
  message : String
  /-- What is written at the place, if not the message. -/
  label : Option String := none

namespace Diagnostic

/-- The text of a diagnostic without its place. -/
def display (d : Diagnostic) : String := d.severity.text ++ ": " ++ d.message

/-- The diagnostic of a fault in a formula. -/
def ofFault (f : Formula.SyntaxFault) : Diagnostic :=
  ⟨.error, f.span, f.fault.message, none⟩

end Diagnostic
end CharacterRules
