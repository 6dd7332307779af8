import CharacterRules.Proofs.Attributes.Lookup
import CharacterRules.Rule.Evaluation
import Mathlib.Data.List.Basic

/-!
What a rule reads. A rule names keys by its source, the names in its expression and the lookup
chains of its requirement, and reaches further keys by the patterns of its requirement. Sheets that
agree on these keys cannot be told apart by the rule.
-/

namespace CharacterRules

namespace Expr

mutual

theorem eval_congr (source : Option Value) {a b : Attributes} :
    ∀ e : Expr, (∀ key ∈ e.references, a[key]? = b[key]?) →
      e.eval ⟨source, a⟩ = e.eval ⟨source, b⟩
  | .literal _, _ => rfl
  | .ident name, h => by
      simp only [eval]
      split
      · rfl
      · rename_i hname
        exact h name (by simp [references, hname])
  | .index key, h => h key (List.mem_singleton_self key)
  | .unary op e, h => by
      simp only [eval]
      rw [eval_congr source e h]
  | .binary op l r, h => by
      simp only [eval]
      rw [eval_congr source l fun key hk => h key (List.mem_append_left _ hk),
        eval_congr source r fun key hk => h key (List.mem_append_right _ hk)]
  | .call f arguments, h => by
      simp only [eval]
      rw [evalAll_congr source arguments h]
  | .conditional c t e, h => by
      simp only [references, List.append_assoc, List.mem_append] at h
      simp only [eval]
      rw [eval_congr source c fun key hk => h key (.inl hk),
        eval_congr source t fun key hk => h key (.inr (.inl hk)),
        eval_congr source e fun key hk => h key (.inr (.inr hk))]

theorem evalAll_congr (source : Option Value) {a b : Attributes} :
    ∀ arguments : List Expr, (∀ key ∈ referencesAll arguments, a[key]? = b[key]?) →
      evalAll ⟨source, a⟩ arguments = evalAll ⟨source, b⟩ arguments
  | [], _ => rfl
  | e :: rest, h => by
      simp only [evalAll]
      rw [eval_congr source e fun key hk => h key (List.mem_append_left _ hk),
        evalAll_congr source rest fun key hk => h key (List.mem_append_right _ hk)]

end

end Expr

namespace Operand

/-- Whether an operand looks at a key: as a part of its lookup chain, or by its pattern. -/
def Reads : Operand → String → Prop
  | .key name, k => k ∈ lookupChain name
  | .sum pattern, k | .max pattern, k => pattern.isMatch k = true

theorem matching_congr (pattern : Pattern) {a b : Attributes}
    (h : ∀ key, pattern.isMatch key = true → a[key]? = b[key]?) :
    matching pattern a = matching pattern b := by
  have split (sheet : Attributes) : matching pattern sheet =
      (sheet.toList.filter fun entry => pattern.isMatch entry.1).filterMap
        fun entry => entry.2.number? := by
    rw [matching, List.filterMap_filter]
  rw [split, split, Attributes.toList_filter_eq_of_agree h]

theorem resolve_congr (o : Operand) {a b : Attributes}
    (h : ∀ key, o.Reads key → a[key]? = b[key]?) : o.resolve a = o.resolve b := by
  cases o with
  | key name =>
      simp only [resolve]
      have chain : ∀ keys : List String, (∀ key ∈ keys, a[key]? = b[key]?) →
          keys.findSome? (fun key => a[key]?) = keys.findSome? fun key => b[key]? := by
        intro keys hkeys
        induction keys with
        | nil => rfl
        | cons key rest ih =>
            rw [List.findSome?_cons, List.findSome?_cons, hkeys key List.mem_cons_self,
              ih fun k hk => hkeys k (List.mem_cons_of_mem key hk)]
      exact chain (lookupChain name) h
  | sum pattern => simp only [resolve, matching_congr pattern h]
  | max pattern => simp only [resolve, matching_congr pattern h]

end Operand

theorem Clause.holds_congr (c : Clause) {a b : Attributes}
    (h : ∀ x ∈ c.alternatives, ∀ key, x.operand.Reads key → a[key]? = b[key]?) :
    c.holds a = c.holds b := by
  simp only [Clause.holds]
  rw [Bool.eq_iff_iff, List.any_eq_true, List.any_eq_true]
  refine exists_congr fun x => and_congr_right fun hx => ?_
  rw [Comparison.holds, Comparison.holds, x.operand.resolve_congr (h x hx)]

theorem Prerequisite.holds_congr (p : Prerequisite) {a b : Attributes}
    (h : ∀ o ∈ Formula.operands p, ∀ key, o.Reads key → a[key]? = b[key]?) :
    p.holds a = p.holds b := by
  simp only [Prerequisite.holds]
  rw [Bool.eq_iff_iff, List.all_eq_true, List.all_eq_true]
  refine forall_congr' fun c => imp_congr_right fun hc => ?_
  rw [c.holds_congr fun x hx =>
    h x.operand (List.mem_flatMap.mpr ⟨c, hc, List.mem_map_of_mem hx⟩)]

namespace Rule

/-- Whether a rule reads a key, by its name or by a pattern. -/
def Reads (r : Rule) (key : String) : Prop :=
  key ∈ r.keys ∨ ∃ pattern ∈ r.formula.patterns, pattern.isMatch key = true

end Rule

theorem Formula.apply_congr (f : Formula) (source : Option Value) {a b : Attributes}
    (h : ∀ key, (key ∈ f.keys ∨ ∃ pattern ∈ f.patterns, pattern.isMatch key = true) →
      a[key]? = b[key]?) : f.apply ⟨source, a⟩ = f.apply ⟨source, b⟩ := by
  cases f with
  | passThrough => rfl
  | literal v => rfl
  | expr e => exact e.eval_congr source fun key hk => h key (.inl hk)
  | unmet p =>
      simp only [apply]
      rw [p.holds_congr]
      intro o ho key hr
      apply h
      cases o with
      | key name => exact .inl (List.mem_flatMap.mpr ⟨_, ho, hr⟩)
      | sum pattern => exact .inr ⟨pattern, List.mem_filterMap.mpr ⟨_, ho, rfl⟩, hr⟩
      | max pattern => exact .inr ⟨pattern, List.mem_filterMap.mpr ⟨_, ho, rfl⟩, hr⟩

namespace Rule

variable (r : Rule) {a b : Attributes}

theorem sourceValue_congr (h : ∀ key, r.Reads key → a[key]? = b[key]?) :
    r.sourceValue a = r.sourceValue b := by
  simp only [sourceValue]
  split
  · rfl
  · rename_i hs
    exact h r.source (.inl (by simp [keys, hs]))

theorem fires_congr (h : ∀ key, r.Reads key → a[key]? = b[key]?) : r.fires a = r.fires b := by
  rw [fires, fires, r.sourceValue_congr h]

theorem contribution?_congr (h : ∀ key, r.Reads key → a[key]? = b[key]?) :
    r.contribution? a = r.contribution? b := by
  rw [contribution?, contribution?, r.sourceValue_congr h]
  refine r.formula.apply_congr _ fun key hk => h key ?_
  exact hk.imp_left fun named => List.mem_append_right _ named

theorem isOpen_congr (h : ∀ key, r.Reads key → a[key]? = b[key]?) : r.isOpen a = r.isOpen b := by
  rw [isOpen, isOpen, r.contribution?_congr h, r.fires_congr h]

theorem contribute_congr (h : ∀ key, r.Reads key → a[key]? = b[key]?) (value : Option Value) :
    contribute a value r = contribute b value r := by
  rw [contribute, contribute, r.fires_congr h, r.contribution?_congr h]

end Rule

namespace RuleGraph

/-- The value that rules give to a target depends only on the keys that one of them reads. -/
theorem evaluateRules_congr (rules : List Rule) (raw : Option Value) {a b : Attributes}
    (h : ∀ r ∈ rules, ∀ key, r.Reads key → a[key]? = b[key]?) :
    evaluateRules rules raw a = evaluateRules rules raw b := by
  have gates : (rules.filter (·.op == .gate)).all (·.isOpen a) =
      (rules.filter (·.op == .gate)).all (·.isOpen b) := by
    rw [Bool.eq_iff_iff, List.all_eq_true, List.all_eq_true]
    refine forall_congr' fun r => imp_congr_right fun hr => ?_
    rw [r.isOpen_congr (h r (List.mem_filter.mp hr).1)]
  simp only [evaluateRules, List.partition_eq_filter_filter]
  rw [gates]
  congr 1
  exact List.foldl_ext _ _ _ fun value r hr =>
    r.contribute_congr (h r (List.mem_filter.mp hr).1) value

/-- Whether one of the rules of a target reads a key. -/
def Reads (g : RuleGraph) (target key : String) : Prop :=
  ∃ r ∈ g.rulesFor target, r.Reads key

theorem evaluateTarget_congr (g : RuleGraph) (target : String) (selection : Selection)
    {a b : Attributes} (h : ∀ key, g.Reads target key → a[key]? = b[key]?) :
    g.evaluateTarget target selection a = g.evaluateTarget target selection b :=
  evaluateRules_congr _ _ fun r hr key hk => h key ⟨r, hr, hk⟩

end RuleGraph
end CharacterRules
