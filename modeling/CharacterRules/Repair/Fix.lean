import CharacterRules.Generation.Fill

/-!
Fixes: single changes of a selection that are meant to make a comparison hold.
-/

namespace CharacterRules

/-- A change of one key of a selection. -/
inductive Fix where
  | set (key : String) (value : Value)
  | remove (key : String)

namespace Fix

def key : Fix → String
  | .set key _ => key
  | .remove key => key

def apply (s : Selection) : Fix → Selection
  | .set key value => s.insert key value
  | .remove key => s.erase key

/-- Turns a key on if that passes the test, and off otherwise. -/
def toggle (key : String) (test : Test) : Fix :=
  if test.accepts (some (.ofBool true)) then .set key (.ofBool true) else .remove key

/-- The numbers of steps that can be bought, nearest to the current one first. -/
def allocations (most : Nat) (current : Number) : List Number :=
  let distance (n : Number) : Number := (n - current).abs
  -- the sort is stable: of two numbers that are equally near, the smaller one comes first
  ((List.range (most + 1)).map Number.ofNat).mergeSort fun a b =>
    !(distance b).lt (distance a)

/-- The die of an ability with a number of steps bought on top of a bonus; without a step there is
none. -/
def dieOfAllocation (bonus allocation : Number) : Option Value :=
  let step := allocation + bonus
  if Number.lt 0 step then some (.number (Ability.dieOfStep step)) else none

/-- Sets the number of steps bought; none is not written. -/
def allocate (a : Ability) (allocation : Number) : Fix :=
  if Number.lt 0 allocation then .set a.allocation (.number allocation)
  else .remove a.allocation

/-- The change of an allocation nearest to the current one whose die passes the test. -/
def ofAbility? (a : Ability) (most : Nat) (sheet : Snapshot) (test : Test) : Option Fix :=
  let current := Attributes.number sheet a.allocation
  -- the steps that other rules than that of the allocation give
  let bonus := Attributes.number sheet a.step - current
  ((allocations most current).find? fun n => test.accepts (dieOfAllocation bonus n)).map
    (allocate a)

/-- The value that a plain attribute needs to pass a test. -/
def desiredValue? : Test → Option Value
  | .compare .eq v => some v
  | .compare .ge (.number n) | .compare .le (.number n) => some (.number n)
  | .compare .gt (.number n) => some (.number (n + 1))
  | .compare .lt (.number n) => some (.number (n - 1))
  | _ => none

end Fix

namespace Ruleset

/-- What precedes the name in the keys of choices that are turned on and off. -/
def toggleStarts : List String :=
  [Category.edges, .hindrances, .powers, .weapons, .armor].filterMap Category.toggleStart?

/-- The values that a key can take, if it is a choice among few. -/
def choices? (r : Ruleset) : String → Option (List String)
  | "gender" => some genders
  | "race" => some (r.catalog.names "races")
  | "concept" => some (r.catalog.names "concepts")
  | "era" => some (r.catalog.names "eras")
  | _ => none

/-- A fix of a choice: another value that passes the test, or none if that does. -/
def fixChoice? (key : String) (choices : List String) (test : Test) (sheet : Snapshot)
    (random : Random) : Option Fix × Random :=
  let current := sheet[key]?.bind Value.text?
  let accepted := choices.filter fun c => test.accepts (some (.text c)) && current != some c
  match random.choose? accepted with
  | (some choice, random) => (some (.set key (.text choice)), random)
  | (none, random) => (if test.accepts none then some (.remove key) else none, random)

/-- The choice that grants a feature, if the catalog has one. -/
def featureToggle? (r : Ruleset) (name : String) : Option String :=
  (["edges", "hindrances"].find? fun table => r.catalog.contains table name).map
    (· ++ "." ++ name)

/-- The fix of an attribute that is neither a trait, an ability nor a choice: one that no rule
writes is removed or set. -/
def fixPlain? (r : Ruleset) (key : String) (test : Test) : Option Fix :=
  if r.graph.hasTarget key then none
  else if test.accepts none then some (.remove key)
  else (Fix.desiredValue? test).map (.set key)

/-- The attribute of the catalog with a key. -/
def attributeOf? (r : Ruleset) (key : String) : Option String :=
  (r.catalog.names "attributes").find? fun name => Ability.attributeKey name == key

/-- Plans a fix for a comparison. Only a comparison of a single key has one. -/
def planFix (r : Ruleset) (c : Comparison) (sheet : Snapshot) (random : Random) :
    Option Fix × Random :=
  match c.operand with
  | .sum _ | .max _ => (none, random)
  | .key key =>
    match Text.afterStart? key "features." with
    | some name => ((r.featureToggle? name).map fun toggle => .toggle toggle c.test, random)
    | none =>
      if toggleStarts.any (Text.startsWith key) then (some (.toggle key c.test), random)
      else
        match Text.afterStart? key "skills." with
        | some skill =>
          (if r.catalog.contains "skills" skill then
            Fix.ofAbility? (.ofSkill skill) Ability.maxStep sheet c.test
          else none, random)
        | none =>
          match r.attributeOf? key, r.choices? key with
          | some name, _ =>
            -- an attribute begins at the first step, so there is one step less to buy
            (Fix.ofAbility? (.ofAttribute name) (Ability.maxStep - 1) sheet c.test, random)
          | none, some choices => fixChoice? key choices c.test sheet random
          | none, none => (r.fixPlain? key c.test, random)

end Ruleset
end CharacterRules
