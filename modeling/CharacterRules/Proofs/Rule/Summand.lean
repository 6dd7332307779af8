import CharacterRules.Proofs.Number.Sum
import CharacterRules.Proofs.Rule.Settled

/-!
Targets that add up. If all rules onto a target add, then its value is the raw choice, if there is
one, with what its rules contribute added to it. As long as these are integers and no partial sum is
rounded, that is the sum of the integers, in whatever order the rules come.
-/

namespace CharacterRules

namespace Value

def integer? (v : Value) : Option Int := v.number?.bind Number.toInt?

/-- Whether a value stands for minus zero. -/
def IsMinusZero (v : Value) : Prop := v.number? = some (.signedZero true)

def addAll (values : List Value) : Option Value := values.foldl (Operator.add.combine) none

theorem addAll_concat (values : List Value) (v : Value) :
    addAll (values ++ [v]) = Operator.add.combine (addAll values) v := by
  rw [addAll, List.foldl_concat, addAll]

def total (values : List Value) : Int := (values.filterMap integer?).sum

theorem total_concat {v : Value} {z : Int} (h : v.integer? = some z) (values : List Value) :
    total (values ++ [v]) = total values + z := by
  simp [total, h]

/-- Values that are integers and whose partial sums, from the first value on, are all exact. -/
structure AddExactly (values : List Value) : Prop where
  integral : ∀ v ∈ values, v.integer?.isSome = true
  exact : ∀ before, before <+: values → Number.IsExact (total before)

theorem AddExactly.of_prefix {before values : List Value} (h : AddExactly values)
    (first : before <+: values) : AddExactly before :=
  ⟨fun v member => h.integral v (first.subset member),
    fun part earlier => h.exact part (earlier.trans first)⟩

/-- A value that is the sum of some values; one that is alone stays as it is. -/
structure IsSum (values : List Value) (w : Value) : Prop where
  integer : w.integer? = some (total values)
  zero : w.IsMinusZero ↔ ∀ v ∈ values, v.IsMinusZero
  number : 1 < values.length → ∃ n, w = .number n

theorem IsSum.combine {values : List Value} {w v : Value} (h : IsSum values w) {z : Int}
    (integer : v.integer? = some z)
    (exact : Number.IsExact (total values + z)) :
    ∃ n, Operator.add.combine (some w) v = some (.number n) ∧ IsSum (values ++ [v]) (.number n) := by
  obtain ⟨x, hx, whole⟩ := Option.bind_eq_some_iff.mp h.integer
  obtain ⟨y, hy, whole'⟩ := Option.bind_eq_some_iff.mp integer
  obtain ⟨sum, sign⟩ := Number.toInt?_add whole whole' exact
  refine ⟨x + y, by simp only [Operator.combine, hx, hy], ?_, ?_, fun _ => ⟨_, rfl⟩⟩
  · rw [total_concat integer]
    exact sum
  · have first : w.IsMinusZero ↔ x = .signedZero true := by simp [IsMinusZero, hx]
    have second : v.IsMinusZero ↔ y = .signedZero true := by simp [IsMinusZero, hy]
    have both : IsMinusZero (.number (x + y)) ↔ x + y = .signedZero true := by
      simp [IsMinusZero, number?]
    rw [both, sign, ← first, ← second, h.zero]
    simp [or_imp, forall_and]

/-- The values leave nothing if there are none, and otherwise their sum. -/
theorem exists_addAll_eq {values : List Value} (h : AddExactly values) (nonempty : values ≠ []) :
    ∃ w, addAll values = some w ∧ IsSum values w := by
  induction values using List.reverseRecOn with
  | nil => exact absurd rfl nonempty
  | append_singleton values v ih =>
      obtain ⟨z, integer⟩ := Option.isSome_iff_exists.mp (h.integral v (by simp))
      rw [addAll_concat]
      by_cases first : values = []
      · subst first
        have alone : total [v] = z := by simp [total, integer]
        exact ⟨v, rfl, integer.trans (congrArg some alone.symm), by simp, by simp⟩
      · obtain ⟨w, added, sum⟩ := ih (h.of_prefix (List.prefix_append values [v])) first
        have exact := h.exact _ List.prefix_rfl
        rw [total_concat integer] at exact
        obtain ⟨n, combined, sum'⟩ := sum.combine integer exact
        exact ⟨.number n, by rw [added, combined], sum'⟩

theorem total_append (values values' : List Value) :
    total (values ++ values') = total values + total values' := by
  rw [total, List.filterMap_append, List.sum_append, ← total, ← total]

/-- A sum in which nothing is rounded has the number of the integers' sum. -/
theorem toInt?_addAll {values : List Value} (h : AddExactly values) :
    (numberOrZero (addAll values)).toInt? = some (total values) := by
  by_cases empty : values = []
  · subst empty
    rfl
  · obtain ⟨w, added, sum⟩ := exists_addAll_eq h empty
    obtain ⟨n, reads, integer⟩ := Option.bind_eq_some_iff.mp sum.integer
    rw [added, numberOrZero, Option.bind_some, reads]
    exact integer

/-- A sum of integers does not depend on their order. -/
theorem addAll_eq_of_perm {values values' : List Value} (perm : values'.Perm values)
    (h : AddExactly values) (h' : AddExactly values') : addAll values' = addAll values := by
  by_cases first : values = []
  · subst first
    rw [perm.eq_nil]
  · have first' : values' ≠ [] := fun none => first (none ▸ perm).symm.eq_nil
    obtain ⟨w, added, sum⟩ := exists_addAll_eq h first
    obtain ⟨w', added', sum'⟩ := exists_addAll_eq h' first'
    by_cases alone : 1 < values.length
    · obtain ⟨n, rfl⟩ := sum.number alone
      obtain ⟨n', rfl⟩ := sum'.number (perm.length_eq ▸ alone)
      have totals : total values' = total values := (perm.filterMap integer?).sum_eq
      have zeros : n' = .signedZero true ↔ n = .signedZero true := by
        have zero := sum.zero
        have zero' := sum'.zero
        simp only [IsMinusZero, number?, Option.some.injEq] at zero zero'
        rw [zero, zero']
        exact forall_congr' fun v => imp_congr_left perm.mem_iff
      rw [added, added', Number.eq_of_toInt? (sum'.integer.trans (by rw [totals])) sum.integer zeros]
    · have one : values.length = 1 := by
        have positive := List.length_pos_of_ne_nil first
        omega
      obtain ⟨v, rfl⟩ := List.length_eq_one_iff.mp one
      rw [List.perm_singleton.mp perm]

end Value

namespace Rule

/-- What a rule adds on a sheet, if it counts there and its formula has a value. -/
def summand? (sheet : Attributes) (r : Rule) : Option Value :=
  if r.fires sheet then r.contribution? sheet else none

theorem summand?_of_ne {r : Rule} (named : r.source ≠ "") (sheet : Attributes) :
    r.summand? sheet = if truthy sheet[r.source]? then r.formula.apply ⟨sheet[r.source]?, sheet⟩
      else none := by
  have source : (r.source == "") = false := beq_eq_false_iff_ne.mpr named
  rw [summand?, fires, contribution?, sourceValue, source, if_neg Bool.false_ne_true, Bool.false_or]

theorem foldl_contribute_of_add {rules : List Rule} (adds : ∀ r ∈ rules, r.op = .add)
    (sheet : Attributes) (raw : Option Value) :
    rules.foldl (contribute sheet) raw =
      Value.addAll (raw.toList ++ rules.filterMap (summand? sheet)) := by
  have start : Value.addAll raw.toList = raw := by
    cases raw <;> rfl
  rw [Value.addAll, List.foldl_append, ← Value.addAll, start, List.foldl_filterMap]
  refine List.foldl_ext _ _ _ fun value r member => ?_
  rw [contribute, summand?, adds r member]
  split
  · cases r.contribution? sheet <;> rfl
  · rfl

end Rule

namespace RuleGraph

/-- The sheet at the turn of a target: what is computed before it. -/
def sheetBefore (g : RuleGraph) (selection : Selection) (target : String) : Attributes :=
  g.evaluateOrder selection (g.evaluationOrder.takeWhile (· != target))

/-- What is added up for a target at its turn: the raw choice, if there is one, and what its rules
contribute. -/
def summands (g : RuleGraph) (selection : Selection) (target : String) : List Value :=
  selection[target]?.toList ++
    (g.rulesFor target).filterMap (Rule.summand? (g.sheetBefore selection target))

/-- Whether a target adds up integers without rounding. -/
structure AddsUp (g : RuleGraph) (selection : Selection) (target : String) : Prop where
  adds : ∀ r ∈ g.rulesFor target, r.op = .add
  exact : Value.AddExactly (g.summands selection target)

theorem evaluateRules_of_add {rules : List Rule} (adds : ∀ r ∈ rules, r.op = .add)
    (raw : Option Value) (sheet : Attributes) : evaluateRules rules raw sheet =
      Value.addAll (raw.toList ++ rules.filterMap (Rule.summand? sheet)) := by
  have gates : rules.filter (·.op == .gate) = [] := by
    rw [List.filter_eq_nil_iff]
    intro r hr gate
    rw [adds r hr] at gate
    cases gate
  have others : rules.filter (fun r => !(r.op == .gate)) = rules := by
    rw [List.filter_eq_self]
    intro r hr
    rw [adds r hr]
    rfl
  simp only [evaluateRules, List.partition_eq_filter_filter]
  rw [gates, ← Rule.foldl_contribute_of_add adds]
  exact congrArg _ others

/-- A rule that sets a target which nothing has set yet gives it what the others start from. -/
theorem evaluateRules_cons_of_set {rule : Rule} (sets : rule.op = .set) (rules : List Rule)
    (sheet : Attributes) : evaluateRules (rule :: rules) none sheet =
      evaluateRules rules (rule.summand? sheet) sheet := by
  have other : (rule.op == .gate) = false := by
    rw [sets]
    rfl
  have start : rule.contribute sheet none = rule.summand? sheet := by
    rw [Rule.contribute, Rule.summand?, sets]
    split
    · cases rule.contribution? sheet <;> rfl
    · rfl
  simp only [evaluateRules, List.partition_eq_filter_filter]
  rw [List.filter_cons_of_neg (by rw [other]; exact Bool.false_ne_true),
    List.filter_cons_of_pos (by rw [Function.comp_apply, other]; rfl), List.foldl_cons, start]

end RuleGraph
end CharacterRules
