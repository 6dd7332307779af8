import CharacterRules.Proofs.Repair.Trim
import CharacterRules.Repair.Basic

/-!
The freezing of repaired keys. Whatever a fix does — meet a clause, drop a trait, trim a budget or
fill one — it leaves frozen keys alone and freezes the keys that it changes. So no key is changed by
two fixes of one run, however many passes the run has.
-/

namespace CharacterRules

namespace Fix

/-- What a fix leaves under its key. -/
def value? : Fix → Option Value
  | .set _ value => some value
  | .remove _ => none

theorem apply_eq_update (f : Fix) (s : Selection) : f.apply s = s.update f.key f.value? := by
  cases f <;> rfl

theorem getElem?_apply_self (f : Fix) (s : Selection) : (f.apply s)[f.key]? = f.value? := by
  rw [apply_eq_update, Attributes.getElem?_update_self]

theorem getElem?_apply_of_ne (f : Fix) (s : Selection) {key : String} (h : key ≠ f.key) :
    (f.apply s)[key]? = s[key]? := by
  rw [apply_eq_update, Attributes.getElem?_update_of_ne _ h]

end Fix

namespace RepairState

/-- A part of a run that leaves frozen keys alone and freezes the keys that it changes. -/
structure Freezes (p q : RepairState) : Prop where
  kept : ∀ key ∈ p.frozen, key ∈ q.frozen
  changed : ∀ key : String, p.selection[key]? ≠ q.selection[key]? →
    key ∉ p.frozen ∧ key ∈ q.frozen

namespace Freezes

variable {p q q' : RepairState}

theorem refl (p : RepairState) : Freezes p p := ⟨fun _ h => h, fun _ h => absurd rfl h⟩

theorem trans (h : Freezes p q) (h' : Freezes q q') : Freezes p q' := by
  refine ⟨fun key frozen => h'.kept key (h.kept key frozen), fun key changed => ?_⟩
  by_cases first : p.selection[key]? = q.selection[key]?
  · obtain ⟨free, frozen⟩ := h'.changed key (first ▸ changed)
    exact ⟨fun already => free (h.kept key already), frozen⟩
  · obtain ⟨free, frozen⟩ := h.changed key first
    exact ⟨free, h'.kept key frozen⟩

theorem getElem?_eq (h : Freezes p q) {key : String} (free : key ∉ q.frozen) :
    q.selection[key]? = p.selection[key]? :=
  Classical.byContradiction fun changed => free (h.changed key (Ne.symm changed)).2

theorem withRandom (h : Freezes p q) (random : Random) : Freezes p { q with random } :=
  ⟨h.kept, h.changed⟩

theorem applyFix (p : RepairState) {fix : Fix} (free : fix.key ∉ p.frozen) :
    Freezes p (p.applyFix fix) := by
  constructor
  · intro key frozen
    exact Std.TreeSet.mem_insert.mpr (.inr frozen)
  · intro key changed
    by_cases same : key = fix.key
    · subst same
      exact ⟨free, Std.TreeSet.mem_insert_self⟩
    · exact absurd (fix.getElem?_apply_of_ne p.selection same).symm changed

end Freezes
end RepairState

namespace Ruleset

open RepairState

theorem freezes_fixClause (r : Ruleset) (sheet : Snapshot) (p : RepairState) (c : Clause) :
    Freezes p (r.fixClause sheet p c).1 := by
  rw [fixClause]
  split
  · exact (Freezes.refl p).withRandom _
  · dsimp only
    split
    · rename_i fix planned
      have free := (Option.filter_eq_some_iff.mp planned).2
      rw [Bool.not_eq_true', ← Bool.not_eq_true, Std.TreeSet.contains_iff_mem] at free
      exact ((Freezes.refl p).withRandom _).trans (.applyFix _ free)
    · exact (Freezes.refl p).withRandom _

theorem freezes_fixClauses (r : Ruleset) (sheet : Snapshot) (p : RepairState)
    (clauses : List Clause) : Freezes p (r.fixClauses sheet p clauses).1 := by
  refine List.foldlRecOn (motive := fun (state : RepairState × Bool) => Freezes p state.1)
    clauses _ (.refl p) ?_
  intro state frozen c _
  exact frozen.trans (r.freezes_fixClause sheet state.1 c)

theorem freezes_dropTrait (r : Ruleset) (p : RepairState) (fact : String) :
    Freezes p (r.dropTrait p fact).1 := by
  rw [dropTrait]
  split
  · exact .refl p
  · rename_i gate _
    split
    · exact .refl p
    · rename_i kept
      rw [Bool.or_eq_true, not_or, Std.TreeSet.contains_iff_mem] at kept
      exact .applyFix p kept.1

theorem freezes_settleBudget {r : Ruleset} {fuel : Nat} {b : Budget} {sheet : Snapshot}
    {p q : RepairState} {fixed : Bool} (picked : b.category.isDirect = false)
    (h : r.settleBudget fuel b sheet p = some (q, fixed)) : Freezes p q := by
  obtain ⟨⟨s, random⟩, settled, result⟩ := Option.map_eq_some_iff.mp h
  obtain ⟨rfl, -⟩ := Prod.mk.inj result
  have adjusts := adjusts_settle picked settled
  constructor
  · intro key frozen
    exact Std.TreeSet.mem_insertMany_list.mpr (.inl frozen)
  · intro key changed
    obtain ⟨free, found⟩ := mem_changedKeys_of_adjusts adjusts changed
    exact ⟨free, Std.TreeSet.mem_insertMany_list.mpr (.inr (List.contains_iff_mem.mpr found))⟩

/-- A fix leaves frozen keys alone and freezes the keys that it changes. -/
theorem freezes_fixFact {r : Ruleset} {fuel : Nat} {sheet : Snapshot} {p q : RepairState}
    {fact : String} {fixed : Bool} (h : r.fixFact fuel sheet p fact = some (q, fixed)) :
    Freezes p q := by
  rw [fixFact] at h
  split at h
  · rename_i b found
    exact freezes_settleBudget (isDirect_category found) h
  · split at h
    · obtain ⟨rfl, -⟩ := Prod.mk.inj (Option.some.inj h)
      exact .refl p
    · rename_i requirement _
      have clauses := r.freezes_fixClauses sheet p (requirement.failing sheet)
      split at h
      · rename_i met
        rw [met] at clauses
        obtain ⟨rfl, -⟩ := Prod.mk.inj (Option.some.inj h)
        exact clauses
      · rename_i m unmet
        rw [unmet] at clauses
        have dropped := r.freezes_dropTrait m fact
        rw [Option.some.inj h] at dropped
        exact clauses.trans dropped

/-- A fix that was tried in a run: the state before and after it. -/
structure FixCall (r : Ruleset) (fuel : Nat) where
  fact : String
  before : RepairState
  after : RepairState
  fixed : Bool
  returns : r.fixFact fuel (r.evaluate before.selection) before fact = some (after, fixed)

namespace FixCall

variable {r : Ruleset} {fuel : Nat}

/-- Whether the value under a key is not the same afterwards. -/
def Changes (c : r.FixCall fuel) (key : String) : Prop :=
  c.before.selection[key]? ≠ c.after.selection[key]?

theorem freezes (c : r.FixCall fuel) : Freezes c.before c.after := freezes_fixFact c.returns

end FixCall

/-- A pass together with the fixes that it tries, in their order; the list ends in front of a fix
that does not return. The same goes for the passes of a run and for the whole of it. -/
def loggedPass (r : Ruleset) (fuel : Nat) :
    List String → RepairState → List (r.FixCall fuel) × Option (RepairState × Bool)
  | [], p => ([], some (p, false))
  | fact :: rest, p =>
    if truthy (r.evaluate p.selection)[fact]? then
      match h : r.fixFact fuel (r.evaluate p.selection) p fact with
      | none => ([], none)
      | some (q, fixed) =>
        let (calls, result) := r.loggedPass fuel rest q
        (⟨fact, p, q, fixed, h⟩ :: calls, result.map fun (q', more) => (q', fixed || more))
    else r.loggedPass fuel rest p

def loggedPasses (r : Ruleset) (fuel : Nat) :
    Nat → RepairState → Selection → List (r.FixCall fuel) × Option (RepairState × Selection)
  | 0, p, best => ([], some (p, best))
  | passes + 1, p, best =>
    match r.violations p.selection with
    | [] => ([], some (p, best))
    | facts =>
      match r.loggedPass fuel facts p with
      | (calls, none) => (calls, none)
      | (calls, some (q, fixed)) =>
        let best := r.fewerViolations best q.selection
        if fixed then
          let (more, result) := r.loggedPasses fuel passes q best
          (calls ++ more, result)
        else (calls, some (q, best))

def loggedRepair (r : Ruleset) (fuel : Nat) (s : Selection) (random : Random) :
    List (r.FixCall fuel) × Option (Selection × Random) :=
  let (calls, result) := r.loggedPasses fuel r.repair.maxPasses ⟨s, {}, random⟩ s
  (calls, result.map fun (p, best) => (r.fewerViolations p.selection best, p.random))

theorem snd_loggedPass (r : Ruleset) (fuel : Nat) (facts : List String) (p : RepairState) :
    (r.loggedPass fuel facts p).2 = r.repairPass fuel facts p := by
  induction facts generalizing p with
  | nil => rfl
  | cons fact rest ih =>
      rw [loggedPass, repairPass]
      dsimp only
      split
      · split
        · rename_i failed
          rw [failed]
          rfl
        · rename_i q fixed returned
          show (r.loggedPass fuel rest q).2.map _ = _
          rw [returned, ih q, Option.map_eq_bind]
          rfl
      · rw [ih p]
        show _ = (r.repairPass fuel rest p).bind _
        cases r.repairPass fuel rest p <;> rfl

theorem snd_loggedPasses (r : Ruleset) (fuel passes : Nat) (p : RepairState) (best : Selection) :
    (r.loggedPasses fuel passes p best).2 = r.repairPasses fuel passes p best := by
  induction passes generalizing p best with
  | zero => rfl
  | succ passes ih =>
      have pass := r.snd_loggedPass fuel (r.violations p.selection) p
      rw [loggedPasses, repairPasses]
      cases facts : r.violations p.selection with
      | nil => rfl
      | cons fact rest =>
          rw [facts] at pass
          dsimp only
          rw [← pass]
          split
          · rename_i failed
            rw [failed]
            rfl
          · rename_i q fixed ended
            rw [ended]
            show _ = if fixed then _ else _
            dsimp only
            split
            · exact ih q _
            · rfl

theorem snd_loggedRepair (r : Ruleset) (fuel : Nat) (s : Selection) (random : Random) :
    (r.loggedRepair fuel s random).2 = r.makeValid fuel s random := by
  rw [makeValid, ← r.snd_loggedPasses]
  show (r.loggedPasses fuel r.repair.maxPasses ⟨s, {}, random⟩ s).2.map _ = _
  rw [Option.map_eq_bind]
  rfl

/-- Fixes one after another from a state on, each behind what the one before has frozen. -/
structure Succeed {r : Ruleset} {fuel : Nat} (p : RepairState) (calls : List (r.FixCall fuel)) :
    Prop where
  start : ∀ c ∈ calls, Freezes p c.before
  ordered : calls.Pairwise fun c d => Freezes c.after d.before

theorem succeed_loggedPass (r : Ruleset) (fuel : Nat) (facts : List String) (p : RepairState) :
    Succeed p (r.loggedPass fuel facts p).1 ∧
      ∀ q fixed, (r.loggedPass fuel facts p).2 = some (q, fixed) →
        Freezes p q ∧ ∀ c ∈ (r.loggedPass fuel facts p).1, Freezes c.after q := by
  induction facts generalizing p with
  | nil =>
      refine ⟨⟨by simp [loggedPass], .nil⟩, fun q fixed h => ?_⟩
      obtain ⟨rfl, -⟩ := Prod.mk.inj (Option.some.inj h)
      exact ⟨.refl p, by simp [loggedPass]⟩
  | cons fact rest ih =>
      -- the call for the first fact comes before all others, and freezing is transitive
      rw [loggedPass]
      split
      · split
        · exact ⟨⟨by simp, .nil⟩, nofun⟩
        · rename_i q fixed returned
          have step := freezes_fixFact returned
          obtain ⟨⟨start, ordered⟩, final⟩ := ih q
          refine ⟨⟨?_, List.pairwise_cons.mpr ⟨start, ordered⟩⟩, fun q' any h => ?_⟩
          · intro c hc
            cases List.mem_cons.mp hc with
            | inl first =>
                obtain rfl := first
                exact .refl p
            | inr later => exact step.trans (start c later)
          · obtain ⟨⟨m, more⟩, ended, result⟩ := Option.map_eq_some_iff.mp h
            obtain ⟨rfl, -⟩ := Prod.mk.inj result
            obtain ⟨tail, behind⟩ := final m more ended
            refine ⟨step.trans tail, fun c hc => ?_⟩
            cases List.mem_cons.mp hc with
            | inl first =>
                obtain rfl := first
                exact tail
            | inr later => exact behind c later
      · exact ih p

theorem succeed_loggedPasses (r : Ruleset) (fuel passes : Nat) (p : RepairState)
    (best : Selection) : Succeed p (r.loggedPasses fuel passes p best).1 := by
  induction passes generalizing p best with
  | zero => exact ⟨by simp [loggedPasses], .nil⟩
  | succ passes ih =>
      obtain ⟨calls, final⟩ :=
        r.succeed_loggedPass fuel (r.violations p.selection) p
      rw [loggedPasses]
      cases facts : r.violations p.selection with
      | nil => exact ⟨by simp, .nil⟩
      | cons fact rest =>
          rw [facts] at calls final
          dsimp only
          split
          · rename_i failed
            rwa [failed] at calls
          · rename_i q fixed ended
            rw [ended] at calls final
            split
            · obtain ⟨through, behind⟩ := final q fixed rfl
              obtain ⟨start, ordered⟩ := ih q (r.fewerViolations best q.selection)
              constructor
              · intro c hc
                cases List.mem_append.mp hc with
                | inl early => exact calls.start c early
                | inr late => exact through.trans (start c late)
              · rw [List.pairwise_append]
                exact ⟨calls.ordered, ordered, fun c hc d hd => (behind c hc).trans (start d hd)⟩
            · exact calls

/-- Of the fixes that a repair tries, in all its passes and whatever becomes of the run, no two
change the value under one key; and each changes only keys that are not frozen before it and are
frozen after it. -/
theorem changes_at_most_once (r : Ruleset) (fuel : Nat) (s : Selection) (random : Random) :
    ∃ calls, r.loggedRepair fuel s random = (calls, r.makeValid fuel s random) ∧
      calls.Pairwise (fun c d => ∀ key, c.Changes key → ¬ d.Changes key) ∧
      ∀ c ∈ calls, ∀ key, c.Changes key → key ∉ c.before.frozen ∧ key ∈ c.after.frozen := by
  refine ⟨(r.loggedRepair fuel s random).1, Prod.ext rfl (r.snd_loggedRepair fuel s random), ?_,
    fun c _ => c.freezes.changed⟩
  have succeed : Succeed ⟨s, {}, random⟩ (r.loggedRepair fuel s random).1 :=
    r.succeed_loggedPasses fuel r.repair.maxPasses ⟨s, {}, random⟩ s
  refine succeed.ordered.imp fun {c d} later key first second => ?_
  exact (d.freezes.changed key second).1 (later.kept key (c.freezes.changed key first).2)

end Ruleset
end CharacterRules
