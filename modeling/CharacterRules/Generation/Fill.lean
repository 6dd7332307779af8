import CharacterRules.Generation.Pick
import CharacterRules.Random.Name

/-!
The filling of a category with random picks. A pick is kept only if it overspends no budget and
raises no other fact; one that does is taken back and not tried again. What other categories have
left to spend does not rule a pick out.
-/

namespace CharacterRules

/-- How much may be picked in a category. -/
inductive Allowance where
  /-- What the points of a budget allow. -/
  | points (b : Budget)
  | count (n : Nat)

/-- A category that is being filled. -/
structure Filling where
  category : Category
  allowance : Allowance
  frozen : Std.TreeSet String

/-- How far a filling has come. -/
structure FillProgress where
  selection : Selection
  /-- The keys of the picks that were taken back. -/
  rejected : Std.TreeSet String := {}
  kept : Nat := 0
  tried : Nat := 0

namespace Filling

/-- What is left of the allowance. -/
def remaining (f : Filling) (sheet : Snapshot) (kept : Nat) : Number :=
  match f.allowance with
  | .points b => Attributes.number sheet b.points - Attributes.number sheet b.spent
  | .count n => .ofNat (n - kept)

/-- Whether the points of the allowance are overspent. -/
def isOverspent (f : Filling) (sheet : Snapshot) : Bool :=
  match f.allowance with
  | .points b => (Attributes.number sheet b.points).lt (Attributes.number sheet b.spent)
  | .count _ => false

/-- Whether a new fact rules a pick out: all do but those that report points which are left. -/
def blocks (fact : String) (sheet : Snapshot) : Bool :=
  (Budget.ofFact? fact).isNone || Number.lt 0 (Attributes.number sheet fact)

/-- Whether a pick that leads from one sheet to another may be kept. -/
def accepts (f : Filling) (before after : Snapshot) : Bool :=
  !f.isOverspent after &&
    let old := Attributes.violations before
    !(Attributes.violations after).any fun fact => !old.contains fact && blocks fact after

/-- The picks that may be tried next, from the names of a pool if one is given. -/
def candidates (f : Filling) (r : Ruleset) (pool : Option (List String)) (p : FillProgress)
    (sheet : Snapshot) : List Pick :=
  let names := (f.category.table?.map r.catalog.names).getD []
  ((names.filter fun name => pool.all (·.contains name)).filterMap
    (r.pickOf? f.category p.selection sheet)).filter
      fun pick => !f.frozen.contains pick.key && !p.rejected.contains pick.key

/-- The progress after a pick was tried. -/
def attempt (f : Filling) (r : Ruleset) (p : FillProgress) (before : Snapshot) (pick : Pick) :
    FillProgress :=
  let trial := pick.apply p.selection
  if f.accepts before (r.evaluate trial) then
    { p with selection := trial, kept := p.kept + 1, tried := p.tried + 1 }
  else { p with rejected := p.rejected.insert pick.key, tried := p.tried + 1 }

/-- Tries picks until the allowance is spent, `limit` of them are kept, no pick is left or the
attempts are used up. -/
def run (f : Filling) (r : Ruleset) (pool : Option (List String)) (limit : Nat) :
    Nat → FillProgress → Random → FillProgress × Random
  | 0, p, random => (p, random)
  | attempts + 1, p, random =>
    let sheet := r.evaluate p.selection
    if limit ≤ p.kept || (f.remaining sheet p.kept).le 0 then (p, random)
    else
      match r.choosePick? f.category p.selection (f.candidates r pool p sheet) random with
      | (none, random) => (p, random)
      | (some pick, random) =>
        f.run r pool limit attempts (f.attempt r p sheet pick) random

end Filling

namespace Ruleset

/-- The genders that characters are drawn from. -/
def genders : List String := ["Female", "Male"]

/-- How many of the remaining edge points a caster sets aside for power points, up to a bound. -/
def divertedPicks (r : Ruleset) (remaining : Number) (bound : Nat) : Nat :=
  let share := ((remaining * r.generation.capacity).floor.max 0).min (.ofNat bound)
  (share.toInt?.getD 0).toNat

/-- Spends a part of the edge points of a character with power points on edges that raise them. -/
def fillPowerEdges (r : Ruleset) (f : Filling) (p : FillProgress) (random : Random) :
    FillProgress × Random :=
  let sheet := r.evaluate p.selection
  if Number.lt 0 (Attributes.number sheet "powerPoints") then
    let attempts := r.generation.maxAttempts
    let limit := r.divertedPicks (f.remaining sheet p.kept) attempts
    f.run r r.powerPointEdges limit attempts p random
  else (p, random)

/-- Fills a category by picks; for edges, those that raise power points come first. -/
def fillByPicks (r : Ruleset) (f : Filling) (s : Selection) (random : Random) :
    FillProgress × Random :=
  let (p, random) :=
    if f.category = .edges then r.fillPowerEdges f ⟨s, {}, 0, 0⟩ random
    else (⟨s, {}, 0, 0⟩, random)
  -- the picks that were tried for power points count as attempts
  let attempts := r.generation.maxAttempts - p.tried
  f.run r none (p.kept + attempts) attempts p random

/-- Draws the value of a category that is a single one. -/
def drawDirect? (r : Ruleset) (category : Category) (random : Random) : Option String × Random :=
  match category with
  | .gender => random.choose? genders
  | .name =>
    let (name, random) := random.name
    (some name, random)
  | other => random.choose? ((other.table?.map r.catalog.names).getD [])

/-- Assigns a category that is a single value, unless it is frozen. -/
def assignDirect (r : Ruleset) (category : Category) (frozen : Std.TreeSet String)
    (s : Selection) (random : Random) : Selection × Nat × Random :=
  if frozen.contains category.text then (s, 0, random)
  else
    match r.drawDirect? category random with
    | (some value, random) => (s.insert category.text (.text value), 1, random)
    | (none, random) => (s, 0, random)

/-- How much may be picked in a category: one or two weapons, one armor, and else what the budget
allows. -/
def drawAllowance (category : Category) (random : Random) : Option Allowance × Random :=
  match category with
  | .weapons =>
    let (more, random) := random.below 2
    (some (.count (1 + more)), random)
  | .armor => (some (.count 1), random)
  | other => ((Budget.ofCategory? other).map .points, random)

/-- Fills a category without changing frozen keys. The number is how many picks were kept. -/
def fill (r : Ruleset) (category : Category) (frozen : Std.TreeSet String) (s : Selection)
    (random : Random) : Selection × Nat × Random :=
  if category.isDirect then r.assignDirect category frozen s random
  else
    match drawAllowance category random with
    | (none, random) => (s, 0, random)
    | (some allowance, random) =>
      let (p, random) := r.fillByPicks ⟨category, allowance, frozen⟩ s random
      (p.selection, p.kept, random)

/-- Fills a category of a selection with random choices. -/
def randomize (r : Ruleset) (category : Category) (s : Selection) (random : Random) :
    Selection × Random :=
  let (s, _, random) := r.fill category {} s random
  (s, random)

end Ruleset
end CharacterRules
