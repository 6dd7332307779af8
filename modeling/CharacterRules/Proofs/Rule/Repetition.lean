import CharacterRules.Proofs.Formula.Division
import CharacterRules.Proofs.Formula.Literal
import CharacterRules.Proofs.Rule.Growth
import CharacterRules.Rule.Evaluation
import Mathlib.Data.List.Count

/-!
Rules that are given again. A rule that has been read equals itself unless it contributes the constant
not-a-number, which equals nothing; so copies of rules that were given before are registered exactly if
they contribute that constant.
-/

namespace CharacterRules

namespace Formula

/-- Whether a formula is the constant not-a-number. -/
def isNaN : Formula → Bool
  | .literal (.number n) => n.isNaN
  | _ => false

theorem isNaN_eq_false_of_beq {f f' : Formula} (h : (f == f') = true) : f'.isNaN = false := by
  cases f' with
  | passThrough | expr _ | unmet _ => rfl
  | literal v =>
      cases v with
      | text _ => rfl
      | number n =>
          cases f with
          | passThrough | expr _ | unmet _ => cases h
          | literal w =>
              obtain ⟨m, rfl, equal⟩ := Value.beq_number_iff.mp h
              have self := Number.beq_trans (Number.beq_symm equal) equal
              exact Number.beq_self_iff.mp self

theorem beq_self_of_parseRule {text : Option String} {f : Formula}
    (h : parseRule text = .ok f) (number : f.isNaN = false) : (f == f) = true := by
  cases text with
  | none =>
      cases h
      rfl
  | some text =>
      rw [parseRule] at h
      split at h
      · cases h
        rfl
      · split at h
        · cases h
          exact Number.beq_self_iff.mpr number
        · split at h
          · rename_i e parsed
            cases h
            exact beq_self_of_parse parsed
          · cases h

end Formula

/-- A rule that has been read equals itself unless its formula is the constant not-a-number. -/
theorem Rule.beq_self_of_ofText {target source op : String} {formula : Option String} {r : Rule}
    (h : Rule.ofText target source op formula = .ok r) (number : r.formula.isNaN = false) :
    (r == r) = true := by
  obtain ⟨operator, -, h⟩ := exists_of_bind_eq_ok h
  obtain ⟨f, read, h⟩ := exists_of_bind_eq_ok h
  cases h
  have parsed := mapError_eq_ok_iff.mp read
  exact Rule.beq_iff.mpr ⟨rfl, rfl, rfl, Formula.beq_self_of_parseRule parsed number⟩

namespace RuleGraph

/-- Sequences of rules that come of others by putting in copies, each of a rule that is given before. -/
inductive Repeats : (given rules copies all : List Rule) → Prop where
  | nil {given : List Rule} : Repeats given [] [] []
  | next {given rules copies all : List Rule} (r : Rule) :
      Repeats (r :: given) rules copies all → Repeats given (r :: rules) copies (r :: all)
  | again {given rules copies all : List Rule} {r : Rule} :
      r ∈ given → Repeats given rules copies all → Repeats given rules (r :: copies) (r :: all)

namespace Repeats

variable {given rules copies all : List Rule} (h : Repeats given rules copies all)

include h

theorem perm : all.Perm (copies ++ rules) := by
  induction h with
  | nil => exact .nil
  | next r _ ih => exact (ih.cons r).trans List.perm_middle.symm
  | again _ _ ih => exact ih.cons _

theorem mem_of_mem_copies {r : Rule} (copied : r ∈ copies) : r ∈ given ∨ r ∈ rules := by
  induction h with
  | nil => cases copied
  | next s _ ih =>
      obtain now | later := ih copied
      · cases List.mem_cons.mp now with
        | inl same => exact .inr (same ▸ List.mem_cons_self)
        | inr known => exact .inl known
      · exact .inr (List.mem_cons_of_mem s later)
  | again member _ ih =>
      cases List.mem_cons.mp copied with
      | inl same => exact .inl (same ▸ member)
      | inr later => exact ih later

end Repeats

theorem hasRule_define_of_hasRule {g : RuleGraph} (h : g.Consistent) {r : Rule}
    (known : g.hasRule r = true) (s : Rule) : (g.define s).hasRule r = true := by
  obtain ⟨t, member, equal⟩ := List.any_eq_true.mp known
  exact List.any_eq_true.mpr ⟨t, h.mem_rulesFor_define.mpr (.inl member), equal⟩

/-- Copies that equal themselves leave a graph as it is. -/
theorem defineAll_of_repeats {given rules copies all : List Rule}
    (h : Repeats given rules copies all) (self : ∀ r ∈ copies, (r == r) = true) {g : RuleGraph}
    (consistent : g.Consistent) (known : ∀ r ∈ given, (r == r) = true → g.hasRule r = true) :
    g.defineAll all = g.defineAll rules := by
  induction h generalizing g with
  | nil => rfl
  | next r _ ih =>
      refine ih self (consistent.define r) (List.forall_mem_cons.mpr ⟨?_, ?_⟩)
      · exact consistent.hasRule_defineAll (List.mem_singleton_self r)
      · exact fun s member own => hasRule_define_of_hasRule consistent (known s member own) r
  | @again _ _ _ all r member _ ih =>
      obtain ⟨own, others⟩ := List.forall_mem_cons.mp self
      have same : g.define r = g := by rw [define, if_pos (known r member own)]
      have first : g.defineAll (r :: all) = (g.define r).defineAll all := rfl
      rw [first, same]
      exact ih others consistent known

/-- The constant not-a-number is registered as often as it is given. -/
theorem countP_isNaN_defineAll (g : RuleGraph) (rules : List Rule) :
    (g.defineAll rules).rules.toList.countP (·.formula.isNaN) =
      g.rules.toList.countP (·.formula.isNaN) + rules.countP (·.formula.isNaN) := by
  induction rules generalizing g with
  | nil => rfl
  | cons r rest ih =>
      have first : (g.define r).rules.toList.countP (·.formula.isNaN) =
          g.rules.toList.countP (·.formula.isNaN) + if r.formula.isNaN then 1 else 0 := by
        rw [rules_define]
        split
        · rename_i known
          obtain ⟨s, -, equal⟩ := List.any_eq_true.mp known
          obtain ⟨-, -, -, formulas⟩ := Rule.beq_iff.mp equal
          simp [Formula.isNaN_eq_false_of_beq formulas]
        · rw [List.countP_append, List.countP_singleton]
      have later : (g.defineAll (r :: rest)).rules = ((g.define r).defineAll rest).rules := rfl
      rw [later, ih, first, List.countP_cons]
      omega

/-- Copies of rules that were read and given before leave the rules as they are, if and only if none of
them contributes the constant not-a-number; then they leave every evaluation as it is. -/
theorem rules_defineAll_of_repeats {g : RuleGraph} (built : g.Built) {rules copies all : List Rule}
    (read : ∀ r ∈ rules, ∃ target source op formula, Rule.ofText target source op formula = .ok r)
    (h : Repeats [] rules copies all) :
    ((g.defineAll all).rules = (g.defineAll rules).rules ↔
      ∀ r ∈ copies, r.formula.isNaN = false) ∧
    ((∀ r ∈ copies, r.formula.isNaN = false) →
      (g.defineAll all).evaluationOrder = (g.defineAll rules).evaluationOrder ∧
      ∀ selection, (g.defineAll all).evaluate selection = (g.defineAll rules).evaluate selection) := by
  have unchanged : (∀ r ∈ copies, r.formula.isNaN = false) →
      g.defineAll all = g.defineAll rules := by
    intro numbers
    refine defineAll_of_repeats h (fun r copied => ?_) built.consistent (List.forall_mem_nil _)
    obtain given | given := h.mem_of_mem_copies copied
    · cases given
    · obtain ⟨target, source, op, formula, same⟩ := read r given
      exact Rule.beq_self_of_ofText same (numbers r copied)
  refine ⟨⟨fun same => ?_, fun numbers => by rw [unchanged numbers]⟩, fun numbers => ?_⟩
  · have counts := g.countP_isNaN_defineAll all
    rw [same, countP_isNaN_defineAll, h.perm.countP_eq, List.countP_append] at counts
    have none : copies.countP (·.formula.isNaN) = 0 := by omega
    exact fun r copied => Bool.eq_false_iff.mpr (List.countP_eq_zero.mp none r copied)
  · rw [unchanged numbers]
    exact ⟨rfl, fun _ => rfl⟩

/-- A base and a bonus that is computed from its source. -/
def paceRules : List Rule :=
  [⟨"pace", "", .set, .literal (.number 6)⟩,
    ⟨"pace", "edges.Fleet", .add, .expr (.binary .mul (.ident "source") (.literal (.number 2)))⟩]

/-- The two rules, with the base given twice more and the bonus once more. -/
def repeatedPaceRules : List Rule :=
  paceRules ++ paceRules ++ paceRules.take 1

theorem exists_ofText_of_mem_paceRules {r : Rule} (h : r ∈ paceRules) :
    ∃ target source op formula, Rule.ofText target source op formula = .ok r := by
  have parsed : Formula.parse "source * 2" =
      .ok (.binary .mul (.ident "source") (.literal (.number 2))) := by
    have tokens : (Formula.lex "source * 2").map Formula.Lexeme.token =
        [.ident "source", .symbol .star, .number 2].map some := by decide +kernel
    refine Formula.parse_of_lexes tokens (.operators (.loosen (Nat.zero_le 5) (by decide) ?_))
    exact .binary (s := .star) rfl (.chain_of_atom (.word "source") (by decide))
      (.chain_of_atom (.number 2) (by decide))
  have trimmed : Text.trim "source * 2" = "source * 2" := by decide
  have noNumber : Number.ofText? "source * 2" = none := by decide
  have bonus : Rule.ofText "pace" "edges.Fleet" "+" (some "source * 2") =
      .ok ⟨"pace", "edges.Fleet", .add,
        .expr (.binary .mul (.ident "source") (.literal (.number 2)))⟩ := by
    rw [Rule.ofText, show Operator.ofText "+" = .ok .add from rfl, Rule.readFormula, Formula.parseRule,
      trimmed]
    dsimp only
    rw [if_neg (by decide), noNumber]
    dsimp only
    rw [parsed]
    rfl
  simp only [paceRules, List.mem_cons, List.not_mem_nil, or_false] at h
  obtain rfl | rfl := h
  · exact ⟨"pace", "", "=", some "6", rfl⟩
  · exact ⟨"pace", "edges.Fleet", "+", some "source * 2", bonus⟩

theorem rules_defineAll_repeatedPaceRules : Built {} ∧
    (∀ r ∈ paceRules, ∃ target source op formula, Rule.ofText target source op formula = .ok r) ∧
    Repeats [] paceRules (paceRules ++ paceRules.take 1) repeatedPaceRules ∧
    (defineAll {} repeatedPaceRules).rules = (defineAll {} paceRules).rules ∧
    ∀ selection, (defineAll {} repeatedPaceRules).evaluate selection =
      (defineAll {} paceRules).evaluate selection := by
  have read := fun r (h : r ∈ paceRules) => exists_ofText_of_mem_paceRules h
  have repeats : Repeats [] paceRules (paceRules ++ paceRules.take 1) repeatedPaceRules := by
    refine .next _ (.next _ (.again ?_ (.again ?_ (.again ?_ .nil))))
    · simp
    · simp
    · simp
  have numbers : ∀ r ∈ paceRules ++ paceRules.take 1, r.formula.isNaN = false := by decide
  obtain ⟨same, later⟩ := rules_defineAll_of_repeats built_empty read repeats
  exact ⟨built_empty, read, repeats, same.mpr numbers, (later numbers).2⟩

/-- A rule that joins the constant not-a-number to a text. -/
def titleRule : Rule := ⟨"title", "", .add, .literal (.number .nan)⟩

/-- The constant is registered again by a copy of its rule and joined once more. -/
theorem rules_defineAll_titleRule :
    Rule.ofText "title" "" "+=" (some "nan") = .ok titleRule ∧
    Repeats [] [titleRule] [titleRule] [titleRule, titleRule] ∧
    (defineAll {} [titleRule, titleRule]).rules ≠ (defineAll {} [titleRule]).rules ∧
    ((defineAll {} [titleRule]).evaluate {("title", .text "Sir")})["title"]? =
      some (.text "SirNaN") ∧
    ((defineAll {} [titleRule, titleRule]).evaluate {("title", .text "Sir")})["title"]? =
      some (.text "SirNaNNaN") := by
  have repeats : Repeats [] [titleRule] [titleRule] [titleRule, titleRule] :=
    .next _ (.again List.mem_cons_self .nil)
  refine ⟨rfl, repeats, fun same => ?_, by decide, by decide⟩
  exact absurd (congrArg Array.size same) (by decide)

end RuleGraph
end CharacterRules
