import CharacterRules.Proofs.Rule.Reordering
import CharacterRules.Proofs.Ruleset.Growth

/-!
Where the shared rules stand. They are registered before all others, so the rules onto a key begin with
the shared ones onto it, and if a compiled ruleset has no others there, they are all of them.
-/

namespace CharacterRules

namespace RuleGraph

/-- To register rules appends those that are new. -/
theorem exists_foldl_register_eq (known added : List Rule) : ∃ new,
    added.foldl register known = known ++ new ∧
      (∀ r ∈ new, r ∈ added) ∧ ∀ r ∈ new, known.any (· == r) = false := by
  induction added generalizing known with
  | nil => exact ⟨[], (List.append_nil known).symm, List.forall_mem_nil _, List.forall_mem_nil _⟩
  | cons r rest ih =>
      obtain ⟨new, all, given, fresh⟩ := ih (register known r)
      have later : ∀ s ∈ new, s ∈ r :: rest := fun s member => .tail r (given s member)
      rw [List.foldl_cons, all]
      cases equal : known.any (· == r) with
      | true =>
          have same : register known r = known := by rw [register, if_pos equal]
          rw [same] at fresh ⊢
          exact ⟨new, rfl, later, fresh⟩
      | false =>
          have more : register known r = known ++ [r] := by
            rw [register, if_neg (Bool.eq_false_iff.mp equal)]
          rw [more] at fresh ⊢
          refine ⟨r :: new, (List.append_cons known r new).symm,
            List.forall_mem_cons.mpr ⟨List.mem_cons_self, later⟩,
            List.forall_mem_cons.mpr ⟨equal, fun s member => ?_⟩⟩
          have apart := fresh s member
          rw [List.any_append, Bool.or_eq_false_iff] at apart
          exact apart.1

/-- Nothing is appended if all rules are known in the end. -/
theorem foldl_register_eq_self {known added : List Rule}
    (all : ∀ r ∈ added.foldl register known, known.any (· == r) = true) :
    added.foldl register known = known := by
  obtain ⟨new, result, -, fresh⟩ := exists_foldl_register_eq known added
  rw [result] at all ⊢
  cases new with
  | nil => exact List.append_nil known
  | cons r rest =>
      have known := all r (List.mem_append_right _ List.mem_cons_self)
      rw [fresh r List.mem_cons_self] at known
      cases known

/-- What calls register for a key comes after the rules that were there. -/
theorem Grows.exists_foldl_register {g g' : RuleGraph} (grows : Grows g g') (h : g.Consistent)
    (key : String) : ∃ added : List Rule, g'.rulesFor key = added.foldl register (g.rulesFor key) := by
  obtain ⟨history, rfl⟩ := grows
  induction history generalizing g with
  | nil => exact ⟨[], rfl⟩
  | cons x history ih =>
      have first : ∃ rules : List Rule,
          (x.apply g).rulesFor key = rules.foldl register (g.rulesFor key) := by
        cases x with
        | rule r => exact ⟨_, h.rulesFor_defineAll [r] key⟩
        | fact fact gate p => exact ⟨_, h.rulesFor_defineAll (factRules fact gate p) key⟩
        | note | requirement | order => exact ⟨[], rfl⟩
      obtain ⟨rules, first⟩ := first
      obtain ⟨more, later⟩ := ih (h.apply x)
      refine ⟨rules ++ more, ?_⟩
      rw [List.foldl_cons, later, first, List.foldl_append]

end RuleGraph

open RuleGraph

namespace RuleText

/-- The rule that a text is read as. -/
def rule? (x : RuleText) : Option Rule := (Rule.ofText x.target x.source x.op x.formula).toOption

theorem target_of_rule? {x : RuleText} {rule : Rule} (h : x.rule? = some rule) :
    rule.target = x.target := by
  obtain ⟨op, -, read⟩ := exists_of_bind_eq_ok (toOption_eq_some_iff.mp h)
  obtain ⟨formula, -, read⟩ := exists_of_bind_eq_ok read
  rw [← Except.ok.inj read]

end RuleText

theorem RuleGraph.eq_defineAll_of_defineTexts {texts : List RuleText} {g g' : RuleGraph}
    (h : g.defineTexts texts = .ok g') : g' = g.defineAll (texts.filterMap RuleText.rule?) := by
  induction texts generalizing g with
  | nil => exact (Except.ok.inj h).symm
  | cons x rest ih =>
      obtain ⟨m, first, later⟩ := exists_of_bind_eq_ok h
      obtain ⟨rule, read, rfl⟩ := map_eq_ok_iff.mp
        (show (Rule.ofText x.target x.source x.op x.formula).map g.define = .ok m from first)
      have known : x.rule? = some rule := toOption_eq_some_iff.mpr read
      rw [List.filterMap_cons_some known]
      exact ih later

namespace Ruleset

/-- The shared rules of a catalog onto a key. -/
def sharedRules (c : Catalog) (key : String) : List Rule :=
  ((baseRules c).filter (·.target == key)).filterMap RuleText.rule?

theorem onto_filterMap_rule? (key : String) (texts : List RuleText) :
    onto key (texts.filterMap RuleText.rule?) =
      (texts.filter (·.target == key)).filterMap RuleText.rule? := by
  rw [onto, List.filter_filterMap, List.filterMap_filter]
  refine List.filterMap_congr fun x _ => ?_
  cases read : x.rule? with
  | none => simp
  | some rule => simp [Option.filter, RuleText.target_of_rule? read]

namespace IsCompiled

variable {r : Ruleset} (h : r.IsCompiled)

include h

/-- The rules onto a key begin with the shared ones. -/
theorem exists_rulesFor_eq (key : String) : ∃ added : List Rule, r.graph.rulesFor key =
    added.foldl register ((sharedRules r.catalog key).foldl register []) := by
  obtain ⟨r', compiled, graph⟩ := h
  obtain ⟨g, base, all⟩ := graph_of_ofCatalog compiled
  have shared : g.rulesFor key = (sharedRules r.catalog key).foldl register [] := by
    rw [eq_defineAll_of_defineTexts base, consistent_empty.rulesFor_defineAll,
      onto_filterMap_rule?]
    rfl
  have consistent : g.Consistent := (grows_defineTexts base).1.built built_empty |>.consistent
  have grows : Grows g r.graph := by
    rw [graph, all]
    exact (grows_registerTraits (targetNames r.catalog) g r.catalog).trans (.apply _ .order)
  rw [← shared]
  exact grows.exists_foldl_register consistent key

/-- Shared rules that are apart are all that there are if every rule equals one of them. -/
theorem rulesFor_eq_sharedRules {key : String}
    (apart : (sharedRules r.catalog key).Pairwise fun x y => (x == y) = false)
    (only : ∀ rule ∈ r.graph.rulesFor key, (sharedRules r.catalog key).any (· == rule) = true) :
    r.graph.rulesFor key = sharedRules r.catalog key := by
  obtain ⟨added, rules⟩ := h.exists_rulesFor_eq key
  have distinct : (sharedRules r.catalog key).foldl register [] = sharedRules r.catalog key :=
    @foldl_register_of_pairwise [] _ apart
  rw [rules, distinct] at only ⊢
  exact foldl_register_eq_self only

end IsCompiled

end Ruleset
end CharacterRules
