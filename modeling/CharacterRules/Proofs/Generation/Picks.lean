import CharacterRules.Proofs.Generation.Acceptance
import CharacterRules.Proofs.Generation.Fill
import CharacterRules.Proofs.Ruleset.BaseRule
import Mathlib.Logic.Function.Iterate

/-!
How far a fill reaches. It tries picks one after another, in two runs that share what was taken back and
the number of attempts: keys of other categories and frozen ones keep their values, a key that is turned
on was off before, a number is raised by one for each pick that was kept, and a pick that was taken back
is not tried again.
-/

namespace CharacterRules

/-- The key under which an entry of a category is chosen. -/
def Category.entryKey? : Category → String → Option String
  | .attributes, entry => some (Ability.ofAttribute entry).allocation
  | .skills, entry => some (Ability.ofSkill entry).allocation
  | other, entry => other.toggleStart?.map (· ++ entry)

/-- What a pick of a category does to its key. -/
def Category.effect (category : Category) : PickEffect :=
  if category.toggleStart?.isSome then .toggle else .increment

/-- A pick that was tried. -/
structure Try where
  pick : Pick
  kept : Bool

namespace Try

/-- The picks that were not taken back. -/
def keptPicks (tries : List Try) : List Pick := (tries.filter (·.kept)).map (·.pick)

@[simp] theorem keptPicks_nil : keptPicks [] = [] := rfl

@[simp] theorem keptPicks_kept (pick : Pick) (tries : List Try) :
    keptPicks (⟨pick, true⟩ :: tries) = pick :: keptPicks tries := rfl

@[simp] theorem keptPicks_rejected (pick : Pick) (tries : List Try) :
    keptPicks (⟨pick, false⟩ :: tries) = keptPicks tries := rfl

theorem exists_of_mem_keptPicks {tries : List Try} {pick : Pick} (h : pick ∈ keptPicks tries) :
    ⟨pick, true⟩ ∈ tries := by
  obtain ⟨⟨tried, kept⟩, member, rfl⟩ := List.mem_map.mp h
  obtain ⟨member, rfl⟩ := List.mem_filter.mp member
  exact member

end Try

/-- What a pick makes of a value. -/
def PickEffect.result : PickEffect → Option Value → Option Value
  | .toggle, _ => some (.number 1)
  | .increment, value => some (.number (numberOrZero value + 1))

theorem PickEffect.iterate_toggle (n : Nat) (value : Option Value) :
    PickEffect.toggle.result^[n + 1] value = some (.number 1) := by
  rw [Function.iterate_succ_apply']
  rfl

theorem PickEffect.iterate_increment (n : Nat) (value : Option Value) :
    PickEffect.increment.result^[n + 1] value =
      some (.number ((· + 1)^[n + 1] (numberOrZero value))) := by
  induction n with
  | zero => rfl
  | succ n ih =>
      rw [Function.iterate_succ_apply' _ (n + 1), ih, Function.iterate_succ_apply' (· + 1) (n + 1)]
      rfl

namespace Pick

theorem getElem?_apply (p : Pick) (s : Selection) (key : String) :
    (p.apply s)[key]? = if key = p.key then p.effect.result s[key]? else s[key]? := by
  refine (s.getElem?_update p.key key (some (.number (p.value s)))).trans ?_
  split
  · rename_i same
    rw [value, same, PickEffect.result.eq_def, Attributes.number]
    cases p.effect <;> rfl
  · rfl

/-- The selection after picks, one after another. -/
def applyAll (picks : List Pick) (s : Selection) : Selection := picks.foldl (fun s p => p.apply s) s

/-- The value under a key is changed by each pick with that key. -/
theorem getElem?_applyAll {picks : List Pick} {effect : PickEffect}
    (same : ∀ p ∈ picks, p.effect = effect) (s : Selection) (key : String) :
    (applyAll picks s)[key]? = effect.result^[(picks.map (·.key)).count key] s[key]? := by
  induction picks generalizing s with
  | nil => rfl
  | cons p picks ih =>
      obtain ⟨first, later⟩ := List.forall_mem_cons.mp same
      refine (ih later (p.apply s)).trans ?_
      rw [getElem?_apply, List.map_cons, List.count_cons, first]
      by_cases own : p.key = key
      · rw [if_pos own.symm, beq_iff_eq.mpr own, if_pos rfl, Function.iterate_succ_apply]
      · rw [if_neg (Ne.symm own), beq_false_of_ne own, if_neg Bool.false_ne_true, Nat.add_zero]

end Pick

theorem Ruleset.eq_of_choosePick?_none {r : Ruleset} {category : Category} {s : Selection}
    {picks : List Pick} {random rest : Random}
    (h : r.choosePick? category s picks random = (none, rest)) : rest = random := by
  cases picks with
  | nil => exact (Prod.mk.inj h).2.symm
  | cons first others =>
      rw [choosePick?] at h
      dsimp only at h
      split at h
      · cases h
      · rename_i preferred
        have some : (if (random.chance r.generation.affinity).1 then
            (first :: others).filter fun p => (r.preferredNames category s).contains p.name
            else first :: others) ≠ [] := by
          split
          · exact preferred
          · exact List.cons_ne_nil first others
        obtain ⟨pick, rest', drawn⟩ :=
          Random.exists_choose?_eq some (random.chance r.generation.affinity).2
        rw [drawn] at h
        cases h

/-- A pick of an entry of the category, whose key may change. -/
structure Filling.Owns (f : Filling) (r : Ruleset) (pick : Pick) : Prop where
  free : pick.key ∉ f.frozen
  listed : ∃ table, f.category.table? = some table ∧ pick.name ∈ r.catalog.names table
  key_eq : f.category.entryKey? pick.name = some pick.key
  effect_eq : pick.effect = f.category.effect

/-- A pick that a character can make. -/
structure Ruleset.Offers (r : Ruleset) (category : Category) (s : Selection) (pick : Pick) : Prop where
  off : category.toggleStart?.isSome = true → truthy s[pick.key]? = false
  fits : category = .weapons → r.fitsEra pick.name s = true

theorem Ruleset.of_pickOf? {r : Ruleset} {category : Category} {s : Selection} {sheet : Snapshot}
    {entry : String} {pick : Pick} (h : r.pickOf? category s sheet entry = some pick) :
    pick.name = entry ∧ category.entryKey? entry = some pick.key ∧ pick.effect = category.effect ∧
      r.Offers category s pick := by
  cases category with
  | attributes | skills =>
      obtain ⟨-, same⟩ := Option.ite_none_right_eq_some.mp h
      obtain rfl := Option.some.inj same
      exact ⟨rfl, rfl, rfl, ⟨nofun, nofun⟩⟩
  | hindrances | edges | powers | armor =>
      obtain ⟨possible, same⟩ := Option.ite_none_left_eq_some.mp h
      obtain rfl := Option.some.inj same
      rw [Bool.or_eq_true, not_or, Bool.not_eq_true] at possible
      exact ⟨rfl, rfl, rfl, ⟨fun _ => possible.1, nofun⟩⟩
  | weapons =>
      obtain ⟨possible, same⟩ := Option.ite_none_left_eq_some.mp h
      obtain rfl := Option.some.inj same
      rw [Bool.or_eq_true, not_or, Bool.not_eq_true] at possible
      refine ⟨rfl, rfl, rfl, ⟨fun _ => possible.1, fun _ => ?_⟩⟩
      exact Bool.of_not_eq_false fun misfit => possible.2 (misfit ▸ rfl)
  | era | race | gender | name | concept => cases h

/-- A pick leaves what another pick of its category needs, its own key apart. -/
theorem Ruleset.Offers.of_apply {r : Ruleset} {category : Category} {s : Selection} {pick other : Pick}
    (h : r.Offers category (pick.apply s) other) (key : category.entryKey? pick.name = some pick.key)
    (effect : pick.effect = category.effect) : r.Offers category s other where
  off toggle := by
    have off := h.off toggle
    have on : truthy (some (.number 1)) = true := by decide
    rw [Pick.getElem?_apply, effect, Category.effect, if_pos toggle] at off
    split at off
    · rw [PickEffect.result, on] at off
      cases off
    · exact off
  fits weapons := by
    subst weapons
    have apart : "era" ≠ pick.key := by
      rintro era
      have whole : "weapons." ++ pick.name = pick.key := Option.some.inj key
      have characters := congrArg String.toList (whole.trans era.symm)
      rw [String.toList_append] at characters
      cases characters
    have fits := h.fits rfl
    rw [fitsEra, Pick.getElem?_apply, if_neg apart] at fits
    exact fits

namespace Filling

variable {f : Filling} {r : Ruleset} {p q : FillProgress} {random rest : Random} {tries : List Try}
  {pick : Pick}

theorem owns_of_mem_candidates {pool : Option (List String)}
    (h : pick ∈ f.candidates r pool p (r.evaluate p.selection)) :
    f.Owns r pick ∧ r.Offers f.category p.selection pick ∧ pick.key ∉ p.rejected := by
  obtain ⟨offered, allowed⟩ := List.mem_filter.mp h
  obtain ⟨entry, named, offered⟩ := List.mem_filterMap.mp offered
  obtain ⟨named, -⟩ := List.mem_filter.mp named
  rw [Bool.and_eq_true, Bool.not_eq_true', Bool.not_eq_true', ← Bool.not_eq_true,
    ← Bool.not_eq_true, Std.TreeSet.contains_iff_mem, Std.TreeSet.contains_iff_mem] at allowed
  obtain ⟨free, unrejected⟩ := allowed
  cases table? : f.category.table? with
  | none =>
      rw [table?] at named
      cases named
  | some table =>
      rw [table?] at named
      obtain ⟨rfl, key, effect, offers⟩ := Ruleset.of_pickOf? offered
      exact ⟨⟨free, ⟨table, table?, named⟩, key, effect⟩, offers, unrejected⟩

/-- The picks of a run that are drawn one after another, each from the candidates of a pool, and kept
or taken back. -/
inductive Tries (f : Filling) (r : Ruleset) :
    FillProgress → Random → List Try → FillProgress → Random → Prop where
  | refl (p : FillProgress) (random : Random) : Tries f r p random [] p random
  | kept {p q : FillProgress} {random next rest : Random} {pick : Pick} {tries : List Try}
      (pool : Option (List String))
      (drawn : r.choosePick? f.category p.selection
        (f.candidates r pool p (r.evaluate p.selection)) random = (some pick, next))
      (accepted : f.accepts (r.evaluate p.selection) (r.evaluate (pick.apply p.selection)) = true)
      (later : Tries f r { p with
        selection := pick.apply p.selection, kept := p.kept + 1, tried := p.tried + 1 }
        next tries q rest) :
      Tries f r p random (⟨pick, true⟩ :: tries) q rest
  | rejected {p q : FillProgress} {random next rest : Random} {pick : Pick} {tries : List Try}
      (pool : Option (List String))
      (drawn : r.choosePick? f.category p.selection
        (f.candidates r pool p (r.evaluate p.selection)) random = (some pick, next))
      (refused : f.accepts (r.evaluate p.selection) (r.evaluate (pick.apply p.selection)) = false)
      (later : Tries f r { p with
        rejected := p.rejected.insert pick.key, tried := p.tried + 1 } next tries q rest) :
      Tries f r p random (⟨pick, false⟩ :: tries) q rest

theorem exists_tries_attempt {pool : Option (List String)} {next : Random}
    (drawn : r.choosePick? f.category p.selection
      (f.candidates r pool p (r.evaluate p.selection)) random = (some pick, next))
    (later : f.Tries r (f.attempt r p (r.evaluate p.selection) pick) next tries q rest) :
    ∃ kept, f.Tries r p random (⟨pick, kept⟩ :: tries) q rest := by
  simp only [attempt] at later
  split at later
  · rename_i accepted
    exact ⟨true, .kept pool drawn accepted later⟩
  · rename_i refused
    exact ⟨false, .rejected pool drawn (Bool.eq_false_iff.mpr refused) later⟩

theorem exists_tries_run (f : Filling) (r : Ruleset) (pool : Option (List String))
    (limit attempts : Nat) (p : FillProgress) (random : Random) :
    ∃ tries, tries.length ≤ attempts ∧
      f.Tries r p random tries (f.run r pool limit attempts p random).1
        (f.run r pool limit attempts p random).2 := by
  induction attempts generalizing p random with
  | zero => exact ⟨[], Nat.le_refl 0, .refl p random⟩
  | succ attempts ih =>
      rw [run]
      split
      · exact ⟨[], Nat.zero_le _, .refl p random⟩
      · obtain ⟨pick?, next, drawn⟩ : ∃ pick? next, r.choosePick? f.category p.selection
            (f.candidates r pool p (r.evaluate p.selection)) random = (pick?, next) :=
          ⟨_, _, rfl⟩
        rw [drawn]
        cases pick? with
        | none =>
            obtain rfl := Ruleset.eq_of_choosePick?_none drawn
            exact ⟨[], Nat.zero_le _, .refl p _⟩
        | some pick =>
            obtain ⟨tries, bounded, later⟩ := ih (f.attempt r p (r.evaluate p.selection) pick) next
            obtain ⟨kept, all⟩ := exists_tries_attempt drawn later
            exact ⟨⟨pick, kept⟩ :: tries, Nat.succ_le_succ bounded, all⟩

namespace Tries

theorem append {m : FillProgress} {more : List Try} {next : Random}
    (h : f.Tries r p random tries m next) (h' : f.Tries r m next more q rest) :
    f.Tries r p random (tries ++ more) q rest := by
  induction h with
  | refl p random => exact h'
  | kept pool drawn accepted later ih => exact .kept pool drawn accepted (ih h')
  | rejected pool drawn refused later ih => exact .rejected pool drawn refused (ih h')

theorem tried_eq (h : f.Tries r p random tries q rest) : q.tried = p.tried + tries.length := by
  induction h with
  | refl => rfl
  | kept _ _ _ later ih | rejected _ _ _ later ih =>
      rw [ih, List.length_cons, Nat.add_assoc, Nat.add_comm 1]

theorem kept_eq (h : f.Tries r p random tries q rest) :
    q.kept = p.kept + (Try.keptPicks tries).length := by
  induction h with
  | refl => rfl
  | kept _ _ _ later ih =>
      rw [ih, Try.keptPicks_kept, List.length_cons, Nat.add_assoc, Nat.add_comm 1]
  | rejected _ _ _ later ih => exact ih

/-- The kept picks make the selection; what was taken back leaves no trace in it. -/
theorem selection_eq (h : f.Tries r p random tries q rest) :
    q.selection = Pick.applyAll (Try.keptPicks tries) p.selection := by
  induction h with
  | refl => rfl
  | kept _ _ _ later ih | rejected _ _ _ later ih => exact ih

/-- What was taken back is not tried again, neither in this run nor in a later one. -/
theorem not_mem_rejected (h : f.Tries r p random tries q rest) :
    ∀ x ∈ tries, x.pick.key ∉ p.rejected := by
  induction h with
  | refl => exact List.forall_mem_nil _
  | kept pool drawn accepted later ih =>
      exact List.forall_mem_cons.mpr
        ⟨(owns_of_mem_candidates (Ruleset.mem_of_choosePick? drawn)).2.2, ih⟩
  | rejected pool drawn refused later ih =>
      refine List.forall_mem_cons.mpr
        ⟨(owns_of_mem_candidates (Ruleset.mem_of_choosePick? drawn)).2.2, fun x member => ?_⟩
      exact fun before => ih x member (Std.TreeSet.mem_insert.mpr (.inr before))

theorem owns (h : f.Tries r p random tries q rest) : ∀ x ∈ tries, f.Owns r x.pick := by
  induction h with
  | refl => exact List.forall_mem_nil _
  | kept _ drawn _ later ih | rejected _ drawn _ later ih =>
      exact List.forall_mem_cons.mpr
        ⟨(owns_of_mem_candidates (Ruleset.mem_of_choosePick? drawn)).1, ih⟩

/-- What was tried could have been picked from the beginning on. -/
theorem offers (h : f.Tries r p random tries q rest) :
    ∀ x ∈ tries, r.Offers f.category p.selection x.pick := by
  induction h with
  | refl => exact List.forall_mem_nil _
  | kept _ drawn _ later ih =>
      obtain ⟨owns, offers, -⟩ := owns_of_mem_candidates (Ruleset.mem_of_choosePick? drawn)
      exact List.forall_mem_cons.mpr
        ⟨offers, fun x member => (ih x member).of_apply owns.key_eq owns.effect_eq⟩
  | rejected _ drawn _ later ih =>
      exact List.forall_mem_cons.mpr
        ⟨(owns_of_mem_candidates (Ruleset.mem_of_choosePick? drawn)).2.1, ih⟩

theorem pairwise (h : f.Tries r p random tries q rest) : tries.Pairwise fun earlier later =>
    earlier.kept = false → later.pick.key ≠ earlier.pick.key := by
  induction h with
  | refl => exact .nil
  | kept _ _ _ later ih => exact .cons (fun _ _ => nofun) ih
  | rejected _ _ _ later ih =>
      refine .cons (fun x member _ same => ?_) ih
      exact later.not_mem_rejected x member (same ▸ Std.TreeSet.mem_insert_self)

theorem getElem?_eq (h : f.Tries r p random tries q rest) (key : String) :
    q.selection[key]? = f.category.effect.result^[((Try.keptPicks tries).map (·.key)).count key]
      p.selection[key]? := by
  rw [h.selection_eq]
  refine Pick.getElem?_applyAll (fun pick kept => ?_) p.selection key
  exact (h.owns _ (Try.exists_of_mem_keptPicks kept)).effect_eq

theorem exists_kept_of_ne (h : f.Tries r p random tries q rest) {key : String}
    (changed : q.selection[key]? ≠ p.selection[key]?) :
    (∃ pick, ⟨pick, true⟩ ∈ tries ∧ pick.key = key) ∧
      ∃ n, ((Try.keptPicks tries).map (·.key)).count key = n + 1 := by
  have drawn : 0 < ((Try.keptPicks tries).map (·.key)).count key := by
    refine Nat.pos_of_ne_zero fun none => changed ?_
    rw [h.getElem?_eq, none, Function.iterate_zero_apply]
  obtain ⟨pick, kept, own⟩ := List.mem_map.mp (List.count_pos_iff.mp drawn)
  exact ⟨⟨pick, Try.exists_of_mem_keptPicks kept, own⟩, Nat.exists_eq_add_one.mpr drawn⟩

end Tries
end Filling

namespace Ruleset

variable {r : Ruleset} {category : Category} {frozen : Std.TreeSet String} {s t : Selection}
  {tries : List Try}

theorem exists_entry_of_fitsEra {entry era : String} (listed : entry ∈ r.catalog.names "weapons")
    (set : s["era"]? = some (.text era)) (fits : r.fitsEra entry s = true) :
    ∃ e, r.catalog.entry? "weapons" entry = some e ∧
      (e.values "Era" = [] ∨ era ∈ e.values "Era") := by
  have known : (r.catalog.entry? "weapons" entry).isSome = true :=
    Std.TreeMap.mem_iff_isSome_getElem?.mp (Std.TreeMap.mem_keys.mp listed)
  obtain ⟨e, found⟩ := Option.isSome_iff_exists.mp known
  refine ⟨e, found, ?_⟩
  rw [fitsEra, set] at fits
  simp only [Option.bind_some, Value.text?, found] at fits
  simpa only [Bool.or_eq_true, List.isEmpty_iff, List.contains_iff_mem] using fits

/-- The reach of filling a category, by the picks that are tried for it. -/
structure FillsOnly (r : Ruleset) (category : Category) (frozen : Std.TreeSet String) (s : Selection)
    (tries : List Try) (t : Selection) : Prop where
  /-- The kept picks make the result, one after another; what was taken back leaves no trace in it. -/
  kept : t = Pick.applyAll (Try.keptPicks tries) s
  /-- What was taken back is not tried again. -/
  rejected : tries.Pairwise fun earlier later =>
    earlier.kept = false → later.pick.key ≠ earlier.pick.key
  owned : ∀ key : String, t[key]? ≠ s[key]? → key ∉ frozen ∧ ∃ table entry,
    category.table? = some table ∧ entry ∈ r.catalog.names table ∧
      category.entryKey? entry = some key
  toggled : category.toggleStart?.isSome = true → ∀ key : String, t[key]? ≠ s[key]? →
    truthy s[key]? = false ∧ t[key]? = some (Value.number 1)
  fitting : category = .weapons → ∀ era, s["era"]? = some (.text era) →
    ∀ key : String, t[key]? ≠ s[key]? → ∃ entry e, "weapons." ++ entry = key ∧
      r.catalog.entry? "weapons" entry = some e ∧
        (e.values "Era" = [] ∨ era ∈ e.values "Era")
  raised : category = .attributes ∨ category = .skills → ∀ key : String, t[key]? ≠ s[key]? →
    t[key]? = some (Value.number
      ((· + 1)^[((Try.keptPicks tries).map (·.key)).count key] (Attributes.number s key)))

theorem fillsOnly_of_tries {f : Filling} {p q : FillProgress} {random rest : Random}
    (h : f.Tries r p random tries q rest) :
    r.FillsOnly f.category f.frozen p.selection tries q.selection where
  kept := h.selection_eq
  rejected := h.pairwise
  owned key changed := by
    obtain ⟨⟨pick, tried, rfl⟩, -⟩ := h.exists_kept_of_ne changed
    have owns := h.owns _ tried
    obtain ⟨table, table?, listed⟩ := owns.listed
    exact ⟨owns.free, table, pick.name, table?, listed, owns.key_eq⟩
  toggled toggle key changed := by
    obtain ⟨⟨pick, tried, rfl⟩, n, often⟩ := h.exists_kept_of_ne changed
    refine ⟨(h.offers _ tried).off toggle, ?_⟩
    rw [h.getElem?_eq, often, Category.effect, if_pos toggle, PickEffect.iterate_toggle]
  fitting weapons era set key changed := by
    obtain ⟨⟨pick, tried, rfl⟩, -⟩ := h.exists_kept_of_ne changed
    have owns := h.owns _ tried
    obtain ⟨table, table?, listed⟩ := owns.listed
    have key := owns.key_eq
    rw [weapons] at table? key
    obtain rfl := Option.some.inj table?
    obtain ⟨e, entry, fits⟩ := exists_entry_of_fitsEra listed set ((h.offers _ tried).fits weapons)
    exact ⟨pick.name, e, Option.some.inj key, entry, fits⟩
  raised steps key changed := by
    obtain ⟨-, n, often⟩ := h.exists_kept_of_ne changed
    have increments : f.category.effect = .increment := by
      rcases steps with steps | steps <;> rw [steps] <;> rfl
    rw [h.getElem?_eq, often, increments, PickEffect.iterate_increment]
    rfl

theorem exists_tries_fillPowerEdges (r : Ruleset) (f : Filling) (p : FillProgress)
    (random : Random) : ∃ tries, tries.length ≤ r.generation.maxAttempts ∧
      f.Tries r p random tries (r.fillPowerEdges f p random).1
        (r.fillPowerEdges f p random).2 := by
  rw [fillPowerEdges]
  dsimp only
  split
  · exact f.exists_tries_run r _ _ _ p random
  · exact ⟨[], Nat.zero_le _, .refl p random⟩

theorem exists_tries_fillByPicks (r : Ruleset) (f : Filling) (s : Selection) (random : Random) :
    ∃ tries, tries.length ≤ r.generation.maxAttempts ∧
      f.Tries r ⟨s, {}, 0, 0⟩ random tries (r.fillByPicks f s random).1
        (r.fillByPicks f s random).2 := by
  rw [fillByPicks]
  obtain ⟨m, next, begun⟩ : ∃ m next,
      (if f.category = .edges then r.fillPowerEdges f ⟨s, {}, 0, 0⟩ random
        else (⟨s, {}, 0, 0⟩, random)) = (m, next) := ⟨_, _, rfl⟩
  obtain ⟨tries, bounded, first⟩ : ∃ tries, tries.length ≤ r.generation.maxAttempts ∧
      f.Tries r ⟨s, {}, 0, 0⟩ random tries m next := by
    split at begun
    · have first := r.exists_tries_fillPowerEdges f ⟨s, {}, 0, 0⟩ random
      rw [begun] at first
      exact first
    · obtain ⟨rfl, rfl⟩ := Prod.mk.inj begun
      exact ⟨[], Nat.zero_le _, .refl _ random⟩
  rw [begun]
  -- the second run has the attempts that the first one left
  obtain ⟨more, bounded', second⟩ := f.exists_tries_run r none
    (m.kept + (r.generation.maxAttempts - m.tried)) (r.generation.maxAttempts - m.tried) m next
  refine ⟨tries ++ more, ?_, first.append second⟩
  have spent : m.tried = 0 + tries.length := first.tried_eq
  rw [List.length_append]
  omega

/-- Filling a category ends after a bounded number of picks, of which it tells how many were kept, and
changes only what those picks change. -/
theorem exists_fillsOnly_fill (r : Ruleset) {category : Category}
    (picked : category.isDirect = false) (frozen : Std.TreeSet String) (s : Selection)
    (random : Random) : ∃ allowance start tries p rest,
      drawAllowance category random = (some allowance, start) ∧
      Filling.Tries ⟨category, allowance, frozen⟩ r ⟨s, {}, 0, 0⟩ start tries p rest ∧
      r.fill category frozen s random = (p.selection, (Try.keptPicks tries).length, rest) ∧
      tries.length ≤ r.generation.maxAttempts ∧
      r.FillsOnly category frozen s tries p.selection := by
  obtain ⟨allowance, start, drawn⟩ : ∃ allowance start,
      drawAllowance category random = (some allowance, start) := by
    cases category with
    | attributes | skills | hindrances | edges | powers | weapons | armor => exact ⟨_, _, rfl⟩
    | era | race | gender | name | concept => cases picked
  obtain ⟨tries, bounded, all⟩ := r.exists_tries_fillByPicks ⟨category, allowance, frozen⟩ s start
  refine ⟨allowance, start, tries, _, _, drawn, all, ?_, bounded, fillsOnly_of_tries all⟩
  have count := all.kept_eq.trans (Nat.zero_add _)
  rw [fill, picked, if_neg Bool.false_ne_true, drawn, ← count]

def laserAndSword : Catalog :=
  .ofSource {("weapons", {("Laser", "Era=Future"), ("Sword", "Era=Medieval")})}

def inMedievalEra : Selection := {("era", .text "Medieval")}

/-- Of the two weapons only the one of the era is picked. -/
theorem exists_fillsOnly_laserAndSword : ∃ r tries, ∃ p : FillProgress, ∃ rest,
    ofCatalog laserAndSword = .ok r ∧
    Category.isDirect .weapons = false ∧
    r.fill .weapons {} inMedievalEra (.ofSeed 1) = (p.selection, 1, rest) ∧
    tries.length ≤ r.generation.maxAttempts ∧
    r.FillsOnly .weapons {} inMedievalEra tries p.selection ∧
    p.selection.keys = ["era", "weapons.Sword"] := by
  have fit : KeysFit laserAndSword := by decide +kernel
  obtain ⟨one, keys⟩ :
      ((assembledOf laserAndSword).fill .weapons {} inMedievalEra (.ofSeed 1)).2.1 = 1 ∧
        ((assembledOf laserAndSword).fill .weapons {} inMedievalEra (.ofSeed 1)).1.keys =
          ["era", "weapons.Sword"] := by decide +kernel
  have picked : Category.isDirect .weapons = false := by decide
  obtain ⟨allowance, start, tries, p, rest, -, -, filled, bounded, only⟩ :=
    (assembledOf laserAndSword).exists_fillsOnly_fill picked {} inMedievalEra (.ofSeed 1)
  rw [filled] at one keys
  exact ⟨_, tries, p, rest, ofCatalog_eq_of_keysFit fit, picked, one ▸ filled, bounded, only, keys⟩

end Ruleset
end CharacterRules
