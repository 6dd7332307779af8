/-!
Stretches of a text, given by byte positions.
-/

namespace CharacterRules

/-- The bytes of a text from `start` up to `stop`. -/
structure Span where
  start : Nat
  stop : Nat
  deriving DecidableEq

end CharacterRules
