import CharacterRules.Proofs.Rule.History
import CharacterRules.Proofs.Rule.Reading
import Mathlib.Data.Set.Finite.Basic
import Mathlib.Data.Set.Finite.List
import Mathlib.Data.String.Basic
import Mathlib.Logic.Relation
import Mathlib.Order.WellFounded

/-!
Dependencies between targets and the order of evaluation. A target depends on the targets that its
rules read. The order places each target once; as long as it places by what is waited for, whatever
a target waits for comes before it, and it stops doing so only in front of targets that wait in
circles.
-/

namespace CharacterRules.RuleGraph

/-- Whether the rules of a target read a key that rules write. -/
def DependsOn (g : RuleGraph) (target key : String) : Prop :=
  g.Reads target key ∧ g.hasTarget key = true

/-- Whether no target reads itself, neither directly nor through other targets. -/
def IsAcyclic (g : RuleGraph) : Prop :=
  ∀ target, ¬ Relation.TransGen g.DependsOn target target

/-- Whether a target is to be computed after another one. -/
def WaitsFor (g : RuleGraph) (target key : String) : Prop :=
  g.DependsOn target key ∧ key ≠ target

theorem mem_targets {g : RuleGraph} {key : String} : key ∈ g.targets ↔ g.hasTarget key = true := by
  rw [targets, hasTarget, Std.TreeMap.mem_keys, Std.TreeMap.mem_iff_contains]

theorem nodup_targets (g : RuleGraph) : g.targets.Nodup := g.positions.nodup_keys

theorem sorted_targets (g : RuleGraph) : g.targets.Pairwise (· < ·) :=
  g.positions.ordered_keys.imp compareOfLessAndEq_eq_lt.mp

theorem reads_iff {g : RuleGraph} {target key : String} : g.Reads target key ↔
    key ∈ (g.rulesFor target).flatMap Rule.keys ∨
      ∃ pattern ∈ (g.rulesFor target).flatMap (fun r => r.formula.patterns),
        pattern.isMatch key = true := by
  simp only [Reads, Rule.Reads, List.mem_flatMap, and_or_left, exists_or]
  refine or_congr_right ⟨?_, ?_⟩
  · rintro ⟨r, hr, pattern, hp, hm⟩
    exact ⟨pattern, ⟨r, hr, hp⟩, hm⟩
  · rintro ⟨pattern, ⟨r, hr, hp⟩, hm⟩
    exact ⟨r, hr, pattern, hp, hm⟩

/-- The computed dependencies are the other targets that a target reads. -/
theorem mem_dependencies {g : RuleGraph} {target key : String} :
    key ∈ g.dependencies target ↔ g.WaitsFor target key := by
  simp only [dependencies, WaitsFor, DependsOn, reads_iff, List.mem_filter, Std.TreeSet.mem_toList,
    Std.TreeSet.mem_ofList, List.contains_iff_mem, List.mem_append,
    List.mem_flatMap (f := fun p => _), mem_targets, bne_iff_ne]
  refine and_congr_left fun _ => ?_
  rw [or_and_right]
  refine or_congr_right ⟨?_, ?_⟩
  · rintro ⟨pattern, hp, written, hm⟩
    exact ⟨⟨pattern, hp, hm⟩, written⟩
  · rintro ⟨⟨pattern, hp, hm⟩, written⟩
    exact ⟨pattern, hp, written, hm⟩

theorem takeReady?_eq_none {pending : Pending} (h : takeReady? pending = none) :
    ∀ entry ∈ pending, entry.2 ≠ [] := by
  induction pending with
  | nil => simp
  | cons entry rest ih =>
      obtain ⟨target, waitsFor⟩ := entry
      cases waitsFor with
      | nil => simp [takeReady?] at h
      | cons key keys =>
          simp only [takeReady?, Option.map_eq_none_iff] at h
          simpa using ih h

/-- The first target that waits for nothing is taken out, and all others stay in place. -/
theorem takeReady?_eq_some {pending rest : Pending} {target : String}
    (h : takeReady? pending = some (target, rest)) :
    ∃ before after, pending = before ++ (target, []) :: after ∧ rest = before ++ after ∧
      ∀ entry ∈ before, entry.2 ≠ [] := by
  induction pending generalizing rest with
  | nil => simp [takeReady?] at h
  | cons entry pending ih =>
      obtain ⟨other, waitsFor⟩ := entry
      cases waitsFor with
      | nil =>
          simp only [takeReady?, Option.some.injEq, Prod.mk.injEq] at h
          obtain ⟨rfl, rfl⟩ := h
          exact ⟨[], pending, rfl, rfl, by simp⟩
      | cons key keys =>
          simp only [takeReady?, Option.map_eq_some_iff, Prod.mk.injEq, Prod.exists] at h
          obtain ⟨taken, left, hleft, rfl, rfl⟩ := h
          obtain ⟨before, after, rfl, rfl, waiting⟩ := ih hleft
          exact ⟨(other, key :: keys) :: before, after, rfl, rfl, by simpa using waiting⟩

theorem map_fst_release (target : String) (pending : Pending) :
    (release target pending).map (·.1) = pending.map (·.1) := by
  simp [release]

theorem arrange_perm (fuel : Nat) (pending : Pending) :
    (arrange fuel pending).Perm (pending.map (·.1)) := by
  induction fuel generalizing pending with
  | zero => exact .refl _
  | succ fuel ih =>
      rw [arrange]
      split
      · rename_i target rest h
        obtain ⟨before, after, rfl, rfl, -⟩ := takeReady?_eq_some h
        have placed := ih (release target (before ++ after))
        rw [map_fst_release, List.map_append] at placed
        rw [List.map_append, List.map_cons]
        exact (placed.cons target).trans List.perm_middle.symm
      · exact .refl _

theorem computeOrder_perm (g : RuleGraph) : g.computeOrder.Perm g.targets := by
  simpa [computeOrder, Function.comp_def] using
    arrange_perm g.targets.length (g.targets.map fun t => (t, g.dependencies t))

/-- What is left of a relation once some targets are placed: each pending target has those that it
waits for and that are not placed, and these are pending too. -/
structure Tracks (waits : String → String → Prop) (placed : List String) (pending : Pending) :
    Prop where
  mem_iff : ∀ entry ∈ pending, ∀ key, key ∈ entry.2 ↔ waits entry.1 key ∧ key ∉ placed
  closed : ∀ entry ∈ pending, ∀ key, waits entry.1 key → key ∈ placed ∨ key ∈ pending.map (·.1)

theorem Tracks.release {waits : String → String → Prop} {placed : List String}
    {before after : Pending} {target : String}
    (h : Tracks waits placed (before ++ (target, []) :: after)) :
    Tracks waits (placed ++ [target]) (release target (before ++ after)) := by
  have sub : ∀ entry ∈ before ++ after, entry ∈ before ++ (target, []) :: after := by
    intro entry he
    cases List.mem_append.mp he with
    | inl hb => exact List.mem_append_left _ hb
    | inr ha => exact List.mem_append_right _ (List.mem_cons_of_mem _ ha)
  constructor
  · intro entry he key
    obtain ⟨⟨other, waitsFor⟩, hmem, rfl⟩ := List.mem_map.mp he
    have waiting := h.mem_iff _ (sub _ hmem) key
    simp only [List.mem_filter, bne_iff_ne, List.mem_append, List.mem_singleton, not_or]
      at waiting ⊢
    rw [waiting, and_assoc]
  · intro entry he key hw
    obtain ⟨⟨other, waitsFor⟩, hmem, rfl⟩ := List.mem_map.mp he
    rw [map_fst_release, List.mem_append, List.mem_singleton, or_assoc]
    refine (h.closed _ (sub _ hmem) key hw).imp_right fun hk => ?_
    simpa [or_left_comm] using hk

/-- An order in which each target comes after all those it waits for. -/
def Follows (waits : String → String → Prop) (placed order : List String) : Prop :=
  ∀ before target after, order = before ++ target :: after →
    ∀ key, waits target key → key ∈ placed ++ before

/-- A name that may be placed next: it is left, and nothing that it waits for is. -/
structure IsReady (waits : String → String → Prop) (names placed : List String)
    (target : String) : Prop where
  mem : target ∈ names
  unplaced : target ∉ placed
  waited : ∀ key, waits target key → key ∈ placed

/-- An order that always goes on with the least of the names that are ready. -/
def LeastFirst (waits : String → String → Prop) (names placed order : List String) : Prop :=
  ∀ before target after, order = before ++ target :: after →
    IsReady waits names (placed ++ before) target ∧
      ∀ other, IsReady waits names (placed ++ before) other → target ≤ other

theorem LeastFirst.follows {waits : String → String → Prop} {names placed order : List String}
    (h : LeastFirst waits names placed order) : Follows waits placed order := by
  intro before target after split
  exact (h before target after split).1.waited

theorem LeastFirst.cons {waits : String → String → Prop} {names placed order : List String}
    {target : String} (ready : IsReady waits names placed target)
    (least : ∀ other, IsReady waits names placed other → target ≤ other)
    (h : LeastFirst waits names (placed ++ [target]) order) :
    LeastFirst waits names placed (target :: order) := by
  intro before other after split
  cases before with
  | nil =>
      obtain ⟨rfl, rfl⟩ := List.cons.inj split
      rw [List.append_nil]
      exact ⟨ready, least⟩
  | cons head before =>
      obtain ⟨rfl, tail⟩ := List.cons.inj split
      rw [List.append_cons]
      exact h before other after tail

/-- Pending targets in the order of their names, each of them once: those of `names` that are not
placed. -/
structure Lists (names placed : List String) (pending : Pending) : Prop where
  sorted : (pending.map (·.1)).Pairwise (· < ·)
  mem_iff : ∀ target, target ∈ pending.map (·.1) ↔ target ∈ names ∧ target ∉ placed

theorem Lists.release {names placed : List String} {before after : Pending} {target : String}
    (h : Lists names placed (before ++ (target, []) :: after)) :
    Lists names (placed ++ [target]) (release target (before ++ after)) := by
  have sorted := h.sorted
  rw [List.map_append, List.map_cons, List.pairwise_append, List.pairwise_cons] at sorted
  obtain ⟨first, ⟨above, second⟩, between⟩ := sorted
  constructor
  · rw [map_fst_release, List.map_append, List.pairwise_append]
    exact ⟨first, second, fun a ha b hb => between a ha b (List.mem_cons_of_mem target hb)⟩
  · intro other
    have listed := h.mem_iff other
    rw [List.map_append, List.map_cons, List.mem_append, List.mem_cons] at listed
    rw [map_fst_release, List.map_append, List.mem_append, List.mem_append, List.mem_singleton,
      not_or, ← and_assoc, ← listed]
    constructor
    · intro member
      refine ⟨member.imp_right .inr, ?_⟩
      rintro rfl
      cases member with
      | inl earlier => exact lt_irrefl _ (between other earlier other List.mem_cons_self)
      | inr later => exact lt_irrefl _ (above other later)
    · rintro ⟨earlier | same | later, differs⟩
      · exact .inl earlier
      · exact absurd same differs
      · exact .inr later

/-- The first target in the list that waits for nothing is the least that is ready. -/
theorem Lists.least {waits : String → String → Prop} {names placed : List String}
    {before after : Pending} {target : String}
    (lists : Lists names placed (before ++ (target, []) :: after))
    (tracks : Tracks waits placed (before ++ (target, []) :: after))
    (waiting : ∀ entry ∈ before, entry.2 ≠ []) :
    IsReady waits names placed target ∧
      ∀ other, IsReady waits names placed other → target ≤ other := by
  have listed := (lists.mem_iff target).mp (by simp)
  refine ⟨⟨listed.1, listed.2, fun key hw => ?_⟩, fun other ready => ?_⟩
  · by_contra unplaced
    have left := (tracks.mem_iff (target, []) (by simp) key).mpr ⟨hw, unplaced⟩
    cases left
  · obtain ⟨entry, he, rfl⟩ := List.mem_map.mp ((lists.mem_iff other).mpr ⟨ready.1, ready.2⟩)
    have idle : entry.2 = [] := by
      rw [List.eq_nil_iff_forall_not_mem]
      intro key hk
      obtain ⟨hw, unplaced⟩ := (tracks.mem_iff entry he key).mp hk
      exact unplaced (ready.waited key hw)
    have sorted := lists.sorted
    rw [List.map_append, List.map_cons, List.pairwise_append, List.pairwise_cons] at sorted
    rcases List.mem_append.mp he with earlier | here
    · exact absurd idle (waiting entry earlier)
    · cases List.mem_cons.mp here with
      | inl same => rw [same]
      | inr later => exact le_of_lt (sorted.2.1.1 entry.1 (List.mem_map_of_mem later))

/-- The arrangement of pending targets has two parts: targets that are each the least of those that
are ready, and targets that all still wait when none is. -/
theorem exists_arrange_eq {waits : String → String → Prop} {fuel : Nat}
    {names placed : List String} {pending : Pending} (tracks : Tracks waits placed pending)
    (lists : Lists names placed pending) (enough : pending.length ≤ fuel) :
    ∃ ready stuck, arrange fuel pending = ready ++ stuck.map (·.1) ∧
      LeastFirst waits names placed ready ∧ Tracks waits (placed ++ ready) stuck ∧
      Lists names (placed ++ ready) stuck ∧ ∀ entry ∈ stuck, entry.2 ≠ [] := by
  induction fuel generalizing placed pending with
  | zero =>
      obtain rfl := List.eq_nil_of_length_eq_zero (Nat.le_zero.mp enough)
      exact ⟨[], [], rfl, by simp [LeastFirst], by simpa using tracks, by simpa using lists,
        by simp⟩
  | succ fuel ih =>
      rw [arrange]
      split
      · rename_i target rest h
        obtain ⟨before, after, rfl, rfl, waiting⟩ := takeReady?_eq_some h
        have fits : (release target (before ++ after)).length ≤ fuel := by
          simp only [List.length_append, List.length_cons, RuleGraph.release, List.length_map]
            at enough ⊢
          omega
        obtain ⟨ready, stuck, split, least, left, listed, stay⟩ :=
          ih tracks.release lists.release fits
        have first := lists.least tracks waiting
        refine ⟨target :: ready, stuck, by rw [split]; rfl, .cons first.1 first.2 least, ?_, ?_, stay⟩
        · simpa using left
        · simpa using listed
      · rename_i h
        exact ⟨[], pending, rfl, by simp [LeastFirst], by simpa using tracks,
          by simpa using lists, takeReady?_eq_none h⟩

/-- In a finite collection where everything has a successor there is a circle. -/
theorem exists_transGen_self {r : String → String → Prop} {l : List String} (hne : l ≠ [])
    (h : ∀ x ∈ l, ∃ y ∈ l, r x y) : ∃ x ∈ l, Relation.TransGen r x x := by
  by_contra acyclic
  push Not at acyclic
  have finite : Finite { x // x ∈ l } := (List.finite_toSet l).to_subtype
  let above (x y : { x // x ∈ l }) : Prop := Relation.TransGen r y.1 x.1
  have trans : IsTrans _ above := ⟨fun x y z hxy hyz => hyz.trans hxy⟩
  have irrefl : Std.Irrefl above := ⟨fun x hx => acyclic x.1 x.2 hx⟩
  have wf : WellFounded above := Finite.wellFounded_of_trans_of_irrefl above
  obtain ⟨first, hfirst⟩ := List.exists_mem_of_ne_nil l hne
  obtain ⟨x, -, minimal⟩ := wf.has_min Set.univ ⟨⟨first, hfirst⟩, trivial⟩
  obtain ⟨y, hy, step⟩ := h x.1 x.2
  exact minimal ⟨y, hy⟩ trivial (.single step)

theorem tracks_dependencies (g : RuleGraph) :
    Tracks g.WaitsFor [] (g.targets.map fun t => (t, g.dependencies t)) := by
  constructor
  · intro entry he key
    obtain ⟨target, -, rfl⟩ := List.mem_map.mp he
    simpa using mem_dependencies
  · intro entry he key hw
    exact .inr (by simpa [Function.comp_def] using mem_targets.mpr hw.1.2)

theorem lists_targets (g : RuleGraph) :
    Lists g.targets [] (g.targets.map fun t => (t, g.dependencies t)) := by
  have names : (g.targets.map fun t => (t, g.dependencies t)).map (·.1) = g.targets := by
    simp [Function.comp_def]
  constructor
  · rw [names]
    exact g.sorted_targets
  · intro target
    rw [names]
    simp

/-- The order of evaluation has two parts: targets that are each the least of those that are ready,
and targets that all wait for another one of this part. -/
theorem exists_computeOrder_eq (g : RuleGraph) : ∃ ready stuck, g.computeOrder = ready ++ stuck ∧
    LeastFirst g.WaitsFor g.targets [] ready ∧ stuck.Pairwise (· < ·) ∧
    (∀ target, target ∈ stuck ↔ target ∈ g.targets ∧ target ∉ ready) ∧
    ∀ target ∈ stuck, ∃ key ∈ stuck, g.WaitsFor target key := by
  obtain ⟨ready, stuck, split, least, tracks, lists, waiting⟩ :=
    exists_arrange_eq g.tracks_dependencies g.lists_targets (Nat.le_of_eq (List.length_map _))
  refine ⟨ready, stuck.map (·.1), by rw [computeOrder, split], least, lists.sorted,
    lists.mem_iff, ?_⟩
  intro target ht
  obtain ⟨entry, he, rfl⟩ := List.mem_map.mp ht
  obtain ⟨key, hk⟩ := List.exists_mem_of_ne_nil _ (waiting entry he)
  obtain ⟨hw, unplaced⟩ := (tracks.mem_iff entry he key).mp hk
  exact ⟨key, (tracks.closed entry he key hw).resolve_left unplaced, hw⟩

/-- Without circles every target comes after all the targets that it depends on. -/
theorem IsAcyclic.follows {g : RuleGraph} (acyclic : g.IsAcyclic) :
    Follows g.DependsOn [] g.computeOrder := by
  obtain ⟨ready, stuck, split, least, -, -, waiting⟩ := g.exists_computeOrder_eq
  have none : stuck = [] := by
    by_contra hne
    obtain ⟨x, -, circle⟩ := exists_transGen_self hne waiting
    have depends : ∀ x y, g.WaitsFor x y → g.DependsOn x y := fun _ _ hw => hw.1
    exact acyclic x (Relation.TransGen.mono depends x x circle)
  have order : g.computeOrder = ready := by rw [split, none, List.append_nil]
  intro before target after hsplit key hd
  refine least.follows before target after (order ▸ hsplit) key ⟨hd, ?_⟩
  rintro rfl
  exact acyclic key (.single hd)

/-- A ranking of the targets that falls along their dependencies excludes circles. -/
theorem isAcyclic_of_rank {g : RuleGraph} (rank : String → Nat)
    (falls : ∀ target key, g.DependsOn target key → rank key < rank target) : g.IsAcyclic := by
  intro target circle
  have lower : ∀ key, Relation.TransGen g.DependsOn target key → rank key < rank target := by
    intro key path
    induction path with
    | single step => exact falls _ _ step
    | tail _ step ih => exact (falls _ _ step).trans ih
  exact Nat.lt_irrefl _ (lower target circle)

/-- For rules without patterns, a ranking of the keys that they name is enough. -/
theorem Consistent.isAcyclic_of_rank {g : RuleGraph} (h : g.Consistent) (rank : String → Nat)
    (falls : ∀ r ∈ g.rules.toList, r.formula.patterns = [] ∧
      ∀ key ∈ r.keys, g.hasTarget key = true → rank key < rank r.target) : g.IsAcyclic := by
  refine RuleGraph.isAcyclic_of_rank rank ?_
  rintro target key ⟨⟨r, hr, reads⟩, written⟩
  obtain ⟨registered, rfl⟩ := h.mem_rulesFor.mp hr
  obtain ⟨patterns, named⟩ := falls r registered
  rcases reads with byName | ⟨pattern, member, -⟩
  · exact named key byName written
  · rw [patterns] at member
    cases member

end CharacterRules.RuleGraph
