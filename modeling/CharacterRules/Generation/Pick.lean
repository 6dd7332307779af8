import CharacterRules.Random.Basic
import CharacterRules.Ruleset.Basic

/-!
Picks: single changes by which a category is filled, and the picks that a character could make next.
-/

namespace CharacterRules

/-- What a pick does to its key. -/
inductive PickEffect where
  /-- The key is turned on. -/
  | toggle
  /-- The number under the key is raised by one. -/
  | increment
  deriving DecidableEq

/-- A change of a selection by the entry of a name. -/
structure Pick where
  effect : PickEffect
  key : String
  name : String
  deriving DecidableEq

namespace Pick

/-- The value under the key after the pick. -/
def value (p : Pick) (s : Selection) : Number :=
  match p.effect with
  | .toggle => 1
  | .increment => Attributes.number s p.key + 1

/-- The selection after the pick. -/
def apply (p : Pick) (s : Selection) : Selection := s.insert p.key (.number (p.value s))

end Pick

namespace Ruleset

/-- Whether a weapon fits the era of a character; without an era all do, and so does a weapon
without eras. -/
def fitsEra (r : Ruleset) (weapon : String) (s : Selection) : Bool :=
  match s["era"]?.bind Value.text? with
  | none => true
  | some era =>
    match r.catalog.entry? "weapons" weapon with
    | none => true
    | some e => (e.values "Era").isEmpty || (e.values "Era").contains era

/-- The pick that buys a further step of an ability, unless it has the highest. -/
def buyStep? (a : Ability) (name : String) (sheet : Snapshot) : Option Pick :=
  if (Attributes.number sheet a.step).lt (.ofNat Ability.maxStep) then
    some ⟨.increment, a.allocation, name⟩
  else none

/-- The pick of a name in a category, if the character can still make it. -/
def pickOf? (r : Ruleset) (category : Category) (s : Selection) (sheet : Snapshot)
    (name : String) : Option Pick :=
  match category with
  | .attributes => buyStep? (.ofAttribute name) name sheet
  | .skills => buyStep? (.ofSkill name) name sheet
  | category =>
    category.toggleStart?.bind fun start =>
      let key := start ++ name
      if truthy s[key]? || (category == .weapons && !r.fitsEra name s) then none
      else some ⟨.toggle, key, name⟩

/-- The names in a category that a character's concept prefers. -/
def preferredNames (r : Ruleset) (category : Category) (s : Selection) : List String :=
  match category.conceptField?, s["concept"]?.bind Value.text? with
  | some field, some concept =>
    ((r.catalog.entry? "concepts" concept).map fun e => e.values field).getD []
  | _, _ => []

/-- One of the picks. If the concept prefers some of them, one of those is drawn with the affinity
as probability. -/
def choosePick? (r : Ruleset) (category : Category) (s : Selection) (picks : List Pick)
    (random : Random) : Option Pick × Random :=
  let names := r.preferredNames category s
  match picks.filter fun p => names.contains p.name with
  | [] => random.choose? picks
  | preferred =>
    let (prefers, random) := random.chance r.generation.affinity
    random.choose? (if prefers then preferred else picks)

end Ruleset
end CharacterRules
