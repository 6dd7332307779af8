import CharacterRules.Pattern.Parser

/-!
Patterns as requirements hold them: the written form together with what it means.
-/

namespace CharacterRules

/-- A pattern with its written form. -/
structure Pattern where
  source : String
  regex : Regex
  compiled : Regex.ofText? source = some regex

namespace Pattern

def ofText? (source : String) : Option Pattern :=
  match compiled : Regex.ofText? source with
  | some regex => some ⟨source, regex, compiled⟩
  | none => none

/-- Patterns with one written form are equal, as the form decides the meaning. -/
theorem ext_source {p q : Pattern} (h : p.source = q.source) : p = q := by
  obtain ⟨s, r, hr⟩ := p
  obtain ⟨t, u, hu⟩ := q
  cases h
  cases Option.some.inj (hr.symm.trans hu)
  rfl

instance : DecidableEq Pattern := fun p q =>
  if h : p.source = q.source then isTrue (ext_source h) else isFalse fun e => h (e ▸ rfl)

/-- Whether the pattern matches anywhere in a text. -/
def isMatch (p : Pattern) (text : String) : Bool := p.regex.isMatch text

end Pattern
end CharacterRules
