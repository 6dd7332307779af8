import CharacterRules.Repair.Basic

/-!
Complete random characters.
-/

namespace CharacterRules.Ruleset

/-- A random character: all categories are filled in order, and the result is repaired. -/
def randomCharacter (r : Ruleset) (fuel : Nat) (random : Random) :
    Option (Selection × Random) :=
  let (s, random) := Category.all.foldl
    (fun (s, random) category => r.randomize category s random) ({}, random)
  r.makeValid fuel s random

end CharacterRules.Ruleset
