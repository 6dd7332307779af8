import CharacterRules.Generation.Fill

/-!
The settling of budgets. An overspent budget is trimmed: owned choices of its category are lowered
or dropped at random until the budget holds. One with points left is filled.
-/

namespace CharacterRules.Ruleset

/-- The keys on which a category may spend points. -/
def spendingKeys (r : Ruleset) (category : Category) (s : Selection) : List String :=
  match category with
  | .attributes => (r.catalog.names "attributes").map fun name =>
    (Ability.ofAttribute name).allocation
  | .skills => (r.catalog.names "skills").map fun name => (Ability.ofSkill name).allocation
  | other => (other.toggleStart?.map (Attributes.keysFrom s)).getD []

/-- The keys on which a category spends points, without frozen ones. -/
def ownedKeys (r : Ruleset) (category : Category) (frozen : Std.TreeSet String) (s : Selection) :
    List String :=
  (r.spendingKeys category s).filter fun key => truthy s[key]? && !frozen.contains key

/-- Takes one point from a key; a choice without points left, and one that is turned on or off, is
removed. -/
def trimKey (category : Category) (s : Selection) (key : String) : Selection :=
  let next := Attributes.number s key - 1
  if Number.lt 0 next && category.toggleStart?.isNone then s.insert key (.number next)
  else s.erase key

/-- Trims a category until its budget holds or nothing is left to trim; there is no result if `fuel`
does not last. -/
def trim (r : Ruleset) (b : Budget) (frozen : Std.TreeSet String) :
    Nat → Selection → Random → Option (Selection × Random)
  | 0, _, _ => none
  | fuel + 1, s, random =>
    if Number.lt 0 (Attributes.number (r.evaluate s) b.fact) then
      match random.choose? (r.ownedKeys b.category frozen s) with
      | (none, random) => some (s, random)
      | (some key, random) => r.trim b frozen fuel (trimKey b.category s key) random
    else some (s, random)

/-- The keys on which two selections differ: first those with a value before. -/
def changedKeys (before after : Selection) : List String :=
  (before.toList.filter fun (key, value) => after[key]? != some value).map (·.1) ++
    after.keys.filter fun key => !before.contains key

def settle (r : Ruleset) (fuel : Nat) (b : Budget) (frozen : Std.TreeSet String) (s : Selection)
    (sheet : Snapshot) (random : Random) : Option (Selection × Random) :=
  if Number.lt 0 (Attributes.number sheet b.fact) then r.trim b frozen fuel s random
  else
    let (s, _, random) := r.fill b.category frozen s random
    some (s, random)

end CharacterRules.Ruleset
