import CharacterRules.Proofs.Repair.Freeze
import CharacterRules.Proofs.Ruleset.BaseRule
import CharacterRules.Proofs.Trait.Entry
import Mathlib.Algebra.Order.BigOperators.Group.List
import Mathlib.Algebra.Order.Ring.Nat
import Mathlib.Logic.Function.Iterate
import Mathlib.Tactic.Choose

/-!
When a repair ends. The passes are bounded, but the trimming of a budget goes on until the budget
holds. It ends if each key that it may take can be used up: a key of a trait by one trim, and a key of
an ability if its number wears off one by one, which all numbers below the staying point do. A number
that stays as it is when one is taken away is trimmed for ever.
-/

namespace CharacterRules

/-- With enough fuel, and from then on with any, the result is `a`. -/
def Returns {α : Type} (f : Nat → Option α) (a : α) : Prop :=
  ∃ bound, ∀ fuel, bound ≤ fuel → f fuel = some a

namespace Returns

variable {α β : Type} {f f' : Nat → Option α} {g : α → Nat → Option β} {a : α} {b : β}

theorem of_eq (h : ∀ fuel, f fuel = some a) : Returns f a := ⟨0, fun fuel _ => h fuel⟩

theorem of_succ (step : ∀ fuel, f (fuel + 1) = f' fuel) (h : Returns f' a) : Returns f a := by
  obtain ⟨bound, rest⟩ := h
  refine ⟨bound + 1, fun fuel enough => ?_⟩
  obtain ⟨fuel, rfl⟩ : ∃ n, fuel = n + 1 := ⟨fuel - 1, by omega⟩
  rw [step, rest fuel (by omega)]

theorem of_succ_eq (h : ∀ fuel, f (fuel + 1) = some a) : Returns f a :=
  of_succ h (of_eq fun _ => rfl)

theorem exists_eq (h : Returns f a) : ∃ fuel, f fuel = some a := by
  obtain ⟨bound, result⟩ := h
  exact ⟨bound, result bound (Nat.le_refl bound)⟩

theorem bind (first : Returns f a) (second : Returns (g a) b) :
    Returns (fun fuel => f fuel >>= fun x => g x fuel) b := by
  obtain ⟨bound, first⟩ := first
  obtain ⟨bound', second⟩ := second
  refine ⟨max bound bound', fun fuel enough => ?_⟩
  show f fuel >>= _ = _
  rw [first fuel (by omega), Option.bind_eq_bind, Option.bind_some, second fuel (by omega)]

theorem map (h : Returns f a) (g : α → β) : Returns (fun fuel => (f fuel).map g) (g a) := by
  obtain ⟨bound, h⟩ := h
  refine ⟨bound, fun fuel enough => ?_⟩
  show (f fuel).map g = _
  rw [h fuel enough, Option.map_some]

end Returns

namespace Ruleset

/-- Whether so many trims remove a value. -/
def GoneAfter (category : Category) (n : Nat) (value : Option Value) : Prop :=
  (trimmed category)^[n] value = none

section

variable {category : Category}

theorem trimmed_eq_none {value : Option Value} (h : Number.lt 0 (numberOrZero value) = false) :
    trimmed category value = none := by
  have spent : Number.lt 0 (numberOrZero value - 1) = false := by
    rw [Bool.eq_false_iff]
    intro more
    rw [Number.lt_zero_of_sub_one more] at h
    cases h
  rw [trimmed, spent, Bool.false_and, if_neg Bool.false_ne_true]

theorem goneAfter_none (n : Nat) : GoneAfter category n none :=
  Function.iterate_fixed (trimmed_eq_none (by decide)) n

theorem goneAfter_of_toggle (toggle : category.toggleStart?.isSome = true)
    (value : Option Value) : GoneAfter category 1 value := by
  show trimmed category value = none
  rw [trimmed, ← Option.not_isSome, toggle, Bool.not_true, Bool.and_false,
    if_neg Bool.false_ne_true]

theorem goneAfter_of_fadesIn {n : Nat} {value : Option Value}
    (h : Number.fadesIn n (numberOrZero value) = true) : GoneAfter category (n + 1) value := by
  induction n generalizing value with
  | zero =>
      rw [Number.fadesIn, Bool.not_eq_true'] at h
      exact trimmed_eq_none h
  | succ n ih =>
      show GoneAfter category (n + 1) (trimmed category value)
      rw [Number.fadesIn, Bool.or_eq_true, Bool.not_eq_true'] at h
      rcases h with spent | fades
      · rw [trimmed_eq_none spent]
        exact goneAfter_none (n + 1)
      · rw [trimmed]
        split
        · exact ih fades
        · exact goneAfter_none (n + 1)

end

def allocationKeys (r : Ruleset) : List String :=
  ((r.catalog.names "attributes").map fun name => (Ability.ofAttribute name).allocation) ++
    (r.catalog.names "skills").map fun name => (Ability.ofSkill name).allocation

/-- What is so of each key that a trim may take. -/
structure MayTrim (r : Ruleset) (category : Category) (frozen : Std.TreeSet String)
    (s : Selection) (key : String) : Prop where
  chosen : truthy s[key]? = true
  free : key ∉ frozen
  spends : category.toggleStart?.isSome = true ∨ key ∈ r.allocationKeys

section

variable {r : Ruleset} {category : Category} {frozen : Std.TreeSet String} {s : Selection}
  {key other : String}

theorem mayTrim_of_mem_ownedKeys (h : key ∈ r.ownedKeys category frozen s) :
    r.MayTrim category frozen s key := by
  obtain ⟨spends, chosen, free⟩ := mem_ownedKeys.mp h
  refine ⟨chosen, free, ?_⟩
  cases category with
  | attributes => exact .inr (List.mem_append_left _ spends)
  | skills => exact .inr (List.mem_append_right _ spends)
  | hindrances | edges | powers | weapons | armor => exact .inl rfl
  | era | race | gender | name | concept => cases spends

theorem MayTrim.mem_keys (h : r.MayTrim category frozen s key) : key ∈ s.keys := by
  rw [Std.TreeMap.mem_keys, Std.TreeMap.mem_iff_isSome_getElem?]
  exact Option.isSome_of_any h.chosen

theorem MayTrim.of_trimKey (taken : r.MayTrim category frozen s key)
    (h : r.MayTrim category frozen (trimKey category s key) other) :
    r.MayTrim category frozen s other := by
  by_cases same : other = key
  · exact same ▸ taken
  · refine ⟨?_, h.free, h.spends⟩
    have chosen := h.chosen
    rwa [trimKey_eq_update, Attributes.getElem?_update_of_ne _ same] at chosen

/-- Each key that a trim may take is listed, and the trims counted for it use it up. -/
def Lasts (r : Ruleset) (category : Category) (frozen : Std.TreeSet String) (keys : List String)
    (life : String → Nat) (s : Selection) : Prop :=
  ∀ key, r.MayTrim category frozen s key → key ∈ keys ∧ GoneAfter category (life key) s[key]?

/-- After a trim, fewer trims are left. -/
theorem Lasts.trimKey {keys : List String} {life : String → Nat}
    (h : r.Lasts category frozen keys life s) (taken : r.MayTrim category frozen s key) :
    ∃ life', r.Lasts category frozen keys life' (trimKey category s key) ∧
      (keys.map life').sum < (keys.map life).sum := by
  obtain ⟨member, gone⟩ := h key taken
  obtain ⟨left, lives⟩ : ∃ left, life key = left + 1 := by
    cases lives : life key with
    | zero =>
        have chosen := taken.chosen
        rw [lives] at gone
        rw [show s[key]? = none from gone] at chosen
        cases chosen
    | succ left => exact ⟨left, rfl⟩
  -- the trim uses up one of the trims counted for its key and none of another
  refine ⟨Function.update life key left, fun other may => ?_, ?_⟩
  · obtain ⟨listed, lasts⟩ := h other (taken.of_trimKey may)
    refine ⟨listed, ?_⟩
    rw [trimKey_eq_update]
    by_cases same : other = key
    · subst same
      rw [Function.update_self, Attributes.getElem?_update_self]
      rwa [lives] at gone
    · rwa [Function.update_of_ne same, Attributes.getElem?_update_of_ne _ same]
  · have less : left < life key := by omega
    refine List.sum_lt_sum _ _ (fun other _ => ?_) ⟨key, member, ?_⟩
    · by_cases same : other = key
      · subst same
        rw [Function.update_self]
        exact Nat.le_of_lt less
      · rw [Function.update_of_ne same]
    · rwa [Function.update_self]

end

theorem exists_returns_trim_of_lasts {r : Ruleset} {b : Budget} {frozen : Std.TreeSet String}
    {keys : List String} {life : String → Nat} {s : Selection} (random : Random)
    (lasts : r.Lasts b.category frozen keys life s) :
    ∃ result, Returns (fun fuel => r.trim b frozen fuel s random) result := by
  -- on the trims that are left: a trim uses one of them up, whichever key is drawn
  induction total : (keys.map life).sum using Nat.strongRecOn generalizing life s random with
  | ind n ih =>
      by_cases overspent : Number.lt 0 (Attributes.number (r.evaluate s) b.fact) = true
      · obtain ⟨choice, rest, drawn⟩ :
            ∃ choice rest, random.choose? (r.ownedKeys b.category frozen s) = (choice, rest) :=
          ⟨_, _, rfl⟩
        cases choice with
        | none =>
            refine ⟨(s, rest), .of_succ_eq fun fuel => ?_⟩
            rw [trim, if_pos overspent, drawn]
        | some key =>
            have taken := mayTrim_of_mem_ownedKeys (Random.mem_of_choose? drawn)
            obtain ⟨life', lasts', fewer⟩ := lasts.trimKey taken
            obtain ⟨result, returns⟩ := ih _ (total ▸ fewer) rest lasts' rfl
            refine ⟨result, .of_succ (fun fuel => ?_) returns⟩
            rw [trim, if_pos overspent, drawn]
      · refine ⟨(s, random), .of_succ_eq fun fuel => ?_⟩
        rw [trim, if_neg overspent]

/-- What is put into attributes and skills, and may still be changed, is below the staying point. -/
def Wears (r : Ruleset) (p : RepairState) : Prop :=
  ∀ key ∈ r.allocationKeys, key ∉ p.frozen →
    Number.stayingPoint.le (Attributes.number p.selection key) = false

theorem Wears.of_freezes {r : Ruleset} {p q : RepairState} (h : r.Wears p)
    (freezes : RepairState.Freezes p q) : r.Wears q := by
  intro key spends free
  have value : Attributes.number q.selection key = Attributes.number p.selection key :=
    congrArg numberOrZero (freezes.getElem?_eq free)
  rw [value]
  exact h key spends fun frozen => free (freezes.kept key frozen)

theorem exists_returns_trim {r : Ruleset} {p : RepairState} (wears : r.Wears p) (b : Budget) :
    ∃ result, Returns (fun fuel => r.trim b p.frozen fuel p.selection p.random) result := by
  have gone : ∀ key, r.MayTrim b.category p.frozen p.selection key →
      ∃ n, GoneAfter b.category n p.selection[key]? := by
    intro key may
    rcases may.spends with toggle | spends
    · exact ⟨1, goneAfter_of_toggle toggle _⟩
    · obtain ⟨n, fades⟩ := Number.exists_fadesIn (wears key spends may.free)
      exact ⟨n + 1, goneAfter_of_fadesIn fades⟩
  choose! life gone using gone
  exact exists_returns_trim_of_lasts p.random fun key may => ⟨may.mem_keys, gone key may⟩

theorem exists_returns_settleBudget {r : Ruleset} {p : RepairState} (wears : r.Wears p)
    (b : Budget) (sheet : Snapshot) :
    ∃ result, Returns (fun fuel => r.settleBudget fuel b sheet p) result := by
  by_cases overspent : Number.lt 0 (Attributes.number sheet b.fact) = true
  · obtain ⟨result, returns⟩ := exists_returns_trim wears b
    simp only [settleBudget, settle, if_pos overspent]
    exact ⟨_, returns.map _⟩
  · simp only [settleBudget, settle, if_neg overspent]
    exact ⟨_, .of_eq fun _ => rfl⟩

theorem exists_returns_fixFact {r : Ruleset} {p : RepairState} (wears : r.Wears p)
    (sheet : Snapshot) (fact : String) :
    ∃ result, Returns (fun fuel => r.fixFact fuel sheet p fact) result := by
  simp only [fixFact]
  cases Budget.ofFact? fact with
  | some b => exact exists_returns_settleBudget wears b sheet
  | none =>
      cases r.graph.requirements[fact]? with
      | none => exact ⟨_, .of_eq fun _ => rfl⟩
      | some requirement =>
          obtain ⟨m, met, clauses⟩ : ∃ m met,
              r.fixClauses sheet p (requirement.failing sheet) = (m, met) := ⟨_, _, rfl⟩
          simp only [clauses]
          cases met with
          | true => exact ⟨_, .of_eq fun _ => rfl⟩
          | false => exact ⟨_, .of_eq fun _ => rfl⟩

theorem exists_returns_repairPass {r : Ruleset} (facts : List String) {p : RepairState}
    (wears : r.Wears p) :
    ∃ q fixed, Returns (fun fuel => r.repairPass fuel facts p) (q, fixed) ∧
      RepairState.Freezes p q := by
  -- a fix freezes what it changes, so what may still be changed stays below the staying point
  induction facts generalizing p with
  | nil => exact ⟨p, false, .of_eq fun _ => rfl, .refl p⟩
  | cons fact rest ih =>
      by_cases violated : truthy (r.evaluate p.selection)[fact]? = true
      · obtain ⟨⟨m, fixed⟩, tried⟩ := exists_returns_fixFact wears (r.evaluate p.selection) fact
        obtain ⟨fuel, result⟩ := tried.exists_eq
        have step := freezes_fixFact result
        obtain ⟨q, more, returns, tail⟩ := ih (wears.of_freezes step)
        refine ⟨q, fixed || more, ?_, step.trans tail⟩
        simp only [repairPass, if_pos violated]
        refine tried.bind ?_
        exact returns.bind (.of_eq fun _ => rfl)
      · obtain ⟨q, more, returns, tail⟩ := ih wears
        refine ⟨q, more, ?_, tail⟩
        simp only [repairPass, if_neg violated]
        exact returns.bind (.of_eq fun _ => rfl)

theorem exists_returns_repairPasses {r : Ruleset} (passes : Nat) {p : RepairState}
    (wears : r.Wears p) (best : Selection) :
    ∃ result, Returns (fun fuel => r.repairPasses fuel passes p best) result := by
  induction passes generalizing p best with
  | zero => exact ⟨(p, best), .of_eq fun _ => rfl⟩
  | succ passes ih =>
      simp only [repairPasses]
      cases r.violations p.selection with
      | nil => exact ⟨(p, best), .of_eq fun _ => rfl⟩
      | cons fact rest =>
          obtain ⟨q, fixed, pass, step⟩ := exists_returns_repairPass (fact :: rest) wears
          cases fixed with
          | false => exact ⟨_, pass.bind (.of_eq fun _ => rfl)⟩
          | true =>
              obtain ⟨result, later⟩ :=
                ih (wears.of_freezes step) (r.fewerViolations best q.selection)
              exact ⟨result, pass.bind later⟩

/-- If every number that is put into an attribute or a skill is below the staying point, a repair
ends: from some fuel on, it has one result whatever the fuel is. -/
theorem makeValid_returns (r : Ruleset) (s : Selection) (random : Random)
    (below : ∀ key ∈ r.allocationKeys, Number.stayingPoint.le (Attributes.number s key) = false) :
    ∃ result bound, ∀ fuel, bound ≤ fuel → r.makeValid fuel s random = some result := by
  have wears : r.Wears ⟨s, {}, random⟩ := fun key spends _ => below key spends
  obtain ⟨⟨p, best⟩, passes⟩ := exists_returns_repairPasses r.repair.maxPasses wears s
  exact ⟨_, passes.bind (.of_eq fun _ => rfl)⟩

def oneAttribute : Catalog := .ofSource {("attributes", {("Agility", "")})}

/-- The most that can be trimmed: the number before the staying point. -/
def mostPoints : Selection := {("agilityAllocation", .number (.ofNat (2 ^ 53 + 2)))}

/-- So many points that one less rounds back to them. -/
def boundlessPoints : Selection := {("agilityAllocation", .number Number.stayingPoint)}

theorem exists_ofCatalog_oneAttribute : ∃ r, ofCatalog oneAttribute = .ok r ∧
    r.repair.maxPasses ≠ 0 ∧ r.allocationKeys = ["agilityAllocation"] ∧
    r.violations boundlessPoints =
      ["validationNotes.attributeAllocation", "validationNotes.skillAllocation"] ∧
    Number.lt 0 (Attributes.number (r.evaluate boundlessPoints)
      "validationNotes.attributeAllocation") = true ∧
    r.ownedKeys .attributes {} boundlessPoints = ["agilityAllocation"] := by
  have fit : KeysFit oneAttribute := by decide +kernel
  exact ⟨assembledOf oneAttribute, ofCatalog_eq_of_keysFit fit, by decide +kernel⟩

/-- Almost `2 ^ 53` steps too many are trimmed one by one. -/
theorem makeValid_returns_mostPoints : ∃ r, ofCatalog oneAttribute = .ok r ∧
    (∀ key ∈ r.allocationKeys,
      Number.stayingPoint.le (Attributes.number mostPoints key) = false) ∧
    ∃ result bound, ∀ fuel, bound ≤ fuel →
      r.makeValid fuel mostPoints (.ofSeed 1) = some result := by
  obtain ⟨r, compiled, -, keys, -⟩ := exists_ofCatalog_oneAttribute
  have below : ∀ key ∈ r.allocationKeys,
      Number.stayingPoint.le (Attributes.number mostPoints key) = false := by
    rw [keys]
    decide
  exact ⟨r, compiled, below, r.makeValid_returns mostPoints (.ofSeed 1) below⟩

/-- Trims that change nothing go on until the fuel is used up. -/
theorem trim_eq_none {r : Ruleset} {b : Budget} {frozen : Std.TreeSet String} {s : Selection}
    (overspent : Number.lt 0 (Attributes.number (r.evaluate s) b.fact) = true)
    (owned : r.ownedKeys b.category frozen s ≠ [])
    (stays : ∀ key ∈ r.ownedKeys b.category frozen s, trimKey b.category s key = s)
    (fuel : Nat) (random : Random) : r.trim b frozen fuel s random = none := by
  induction fuel generalizing random with
  | zero => rfl
  | succ fuel ih =>
      obtain ⟨key, rest, drawn⟩ := Random.exists_choose?_eq owned random
      rw [trim, if_pos overspent, drawn]
      show r.trim b frozen fuel (trimKey b.category s key) rest = none
      rw [stays key (Random.mem_of_choose? drawn), ih]

theorem makeValid_eq_none {r : Ruleset} {fuel : Nat} {s : Selection} {random : Random}
    {fact : String} {rest : List String} (passes : r.repair.maxPasses ≠ 0)
    (violated : r.violations s = fact :: rest)
    (fails : r.fixFact fuel (r.evaluate s) ⟨s, {}, random⟩ fact = none) :
    r.makeValid fuel s random = none := by
  obtain ⟨more, bound⟩ := Nat.exists_eq_succ_of_ne_zero passes
  have on : truthy (r.evaluate s)[fact]? = true := by
    have member : fact ∈ r.violations s := violated ▸ List.mem_cons_self
    exact (Attributes.mem_violations.mp member).2
  have pass : r.repairPass fuel (fact :: rest) ⟨s, {}, random⟩ = none := by
    simp only [repairPass, if_pos on, fails, Option.bind_eq_bind, Option.bind_none]
  simp only [makeValid, bound, Nat.succ_eq_add_one, repairPasses, violated, pass,
    Option.bind_eq_bind, Option.bind_none]

/-- A repair that comes to trim the boundless points never ends. -/
theorem makeValid_boundlessPoints_eq_none : ∃ r, ofCatalog oneAttribute = .ok r ∧
    ∀ fuel random, r.makeValid fuel boundlessPoints random = none := by
  obtain ⟨r, compiled, passes, -, violated, overspent, owned⟩ := exists_ofCatalog_oneAttribute
  obtain ⟨b, watched, fact, category⟩ : ∃ b,
      Budget.ofFact? "validationNotes.attributeAllocation" = some b ∧
        b.fact = "validationNotes.attributeAllocation" ∧ b.category = .attributes :=
    ⟨_, rfl, rfl, rfl⟩
  have stays : trimKey b.category boundlessPoints "agilityAllocation" = boundlessPoints := by
    rw [category]
    rfl
  refine ⟨r, compiled, fun fuel random => makeValid_eq_none passes violated ?_⟩
  rw [← fact] at overspent
  rw [← category] at owned
  rw [fixFact, watched]
  show r.settleBudget fuel b _ _ = none
  rw [settleBudget, settle, if_pos overspent, trim_eq_none overspent (by simp [owned])]
  · rfl
  · intro key member
    rw [owned, List.mem_singleton] at member
    rw [member, stays]

end Ruleset
end CharacterRules
