import CharacterRules.Proofs.Rule.Dependency
import Mathlib.Order.Bounds.Basic

/-!
The order of evaluation of any rules. What a target waits for either ends, or it leads into a circle
of targets that wait for each other. Targets of the first kind come first, at every step the least
one that is ready; the others follow in the order of their names.
-/

namespace CharacterRules.RuleGraph

/-- Whether what a target waits for leads into a circle. As no target waits for itself, a circle
has at least two targets. -/
def ReachesCircle (g : RuleGraph) (target : String) : Prop :=
  ∃ key, Relation.ReflTransGen g.WaitsFor target key ∧ Relation.TransGen g.WaitsFor key key

/-- In an order where each target follows those it waits for, what leads out of a target leads to
earlier places. -/
theorem Follows.idxOf_lt {waits : String → String → Prop} {order : List String}
    (h : Follows waits [] order) {target key : String} (placed : target ∈ order)
    (path : Relation.TransGen waits target key) :
    key ∈ order ∧ order.idxOf key < order.idxOf target := by
  have step : ∀ {x y}, x ∈ order → waits x y → y ∈ order ∧ order.idxOf y < order.idxOf x := by
    intro x y hx hw
    obtain ⟨before, after, rfl, first⟩ := List.eq_append_cons_of_mem hx
    have earlier : y ∈ before := h before x after rfl y hw
    refine ⟨List.mem_append_left _ earlier, ?_⟩
    rw [List.idxOf_append_of_mem earlier, List.idxOf_append_of_notMem first, List.idxOf_cons_self]
    exact Nat.lt_add_right _ (List.idxOf_lt_length_of_mem earlier)
  induction path with
  | single hw => exact step placed hw
  | tail _ hw ih =>
      obtain ⟨member, below⟩ := step ih.1 hw
      exact ⟨member, below.trans ih.2⟩

theorem not_reachesCircle_of_mem {g : RuleGraph} {order : List String}
    (h : Follows g.WaitsFor [] order) {target : String} (placed : target ∈ order) :
    ¬ g.ReachesCircle target := by
  rintro ⟨key, path, circle⟩
  have member : key ∈ order := by
    rcases Relation.reflTransGen_iff_eq_or_transGen.mp path with rfl | steps
    · exact placed
    · exact (h.idxOf_lt placed steps).1
  exact Nat.lt_irrefl _ (h.idxOf_lt member circle).2

/-- Where every target waits for another one, what a target waits for leads into a circle. -/
theorem reachesCircle_of_mem {g : RuleGraph} {stuck : List String}
    (waiting : ∀ target ∈ stuck, ∃ key ∈ stuck, g.WaitsFor target key) {target : String}
    (h : target ∈ stuck) : g.ReachesCircle target := by
  classical
  let reached := stuck.filter fun key => Relation.ReflTransGen g.WaitsFor target key
  have mem_reached : ∀ key, key ∈ reached ↔
      key ∈ stuck ∧ Relation.ReflTransGen g.WaitsFor target key := by
    simp [reached]
  have start : target ∈ reached := (mem_reached target).mpr ⟨h, .refl⟩
  obtain ⟨key, hk, circle⟩ :=
    exists_transGen_self (r := g.WaitsFor) (List.ne_nil_of_mem start) (by
      intro key hk
      obtain ⟨member, path⟩ := (mem_reached key).mp hk
      obtain ⟨next, stays, hw⟩ := waiting key member
      exact ⟨next, (mem_reached next).mpr ⟨stays, path.tail hw⟩, hw⟩)
  exact ⟨key, ((mem_reached key).mp hk).2, circle⟩

/-- The order of evaluation lists every target once. It begins with the targets that lead into no
circle, each of them the least, by name, of those that are not placed while all they depend on is;
and it ends with the other targets, ascending by name. -/
theorem evaluationOrder_eq_ready_append_stuck (g : RuleGraph) (built : g.Built) :
    g.evaluationOrder.Nodup ∧
    (∀ target, target ∈ g.evaluationOrder ↔ ∃ r ∈ g.rules.toList, r.target = target) ∧
    ∃ ready stuck, g.evaluationOrder = ready ++ stuck ∧
      (∀ target, target ∈ ready ↔ g.hasTarget target = true ∧ ¬ g.ReachesCircle target) ∧
      (∀ before target after, ready = before ++ target :: after →
        IsLeast {key | IsReady g.WaitsFor g.targets before key} target) ∧
      stuck.Pairwise (· < ·) := by
  have consistent := built.consistent
  rw [consistent.evaluationOrder_eq]
  have perm := g.computeOrder_perm
  obtain ⟨ready, stuck, split, least, sorted, left, waiting⟩ := g.exists_computeOrder_eq
  refine ⟨perm.nodup_iff.mpr g.nodup_targets, fun target => ?_, ready, stuck, split,
    fun target => ⟨fun placed => ?_, fun ⟨written, ends⟩ => ?_⟩, least, sorted⟩
  · rw [perm.mem_iff, mem_targets, consistent.hasTarget_iff]
  · have member : target ∈ g.computeOrder := split ▸ List.mem_append_left stuck placed
    exact ⟨mem_targets.mp (perm.mem_iff.mp member),
      not_reachesCircle_of_mem least.follows placed⟩
  · by_contra unplaced
    have late := (left target).mpr ⟨mem_targets.mpr written, unplaced⟩
    exact ends (reachesCircle_of_mem waiting late)

/-- A step that reads itself and what is bought, a die that follows the step, two attributes that
wait for each other, and one that waits for them. -/
def circleGraph : RuleGraph :=
  RuleGraph.defineAll {}
    [⟨"size", "toughness", .add, .passThrough⟩, ⟨"toughness", "size", .add, .passThrough⟩,
      ⟨"armor", "toughness", .set, .passThrough⟩, ⟨"agility", "step", .set, .passThrough⟩,
      ⟨"step", "step", .set, .passThrough⟩, ⟨"step", "bought", .add, .passThrough⟩]

theorem evaluationOrder_circleGraph : circleGraph.Built ∧
    circleGraph.evaluationOrder = ["step", "agility", "armor", "size", "toughness"] ∧
    ∃ ready stuck, circleGraph.evaluationOrder = ready ++ stuck ∧
      (∀ target, target ∈ ready ↔
        circleGraph.hasTarget target = true ∧ ¬ circleGraph.ReachesCircle target) ∧
      (∀ before target after, ready = before ++ target :: after →
        IsLeast {key | IsReady circleGraph.WaitsFor circleGraph.targets before key} target) ∧
      stuck.Pairwise (· < ·) := by
  have built : circleGraph.Built := built_empty.defineAll _
  exact ⟨built, by decide, (evaluationOrder_eq_ready_append_stuck circleGraph built).2.2⟩

end CharacterRules.RuleGraph
