import CharacterRules.Proofs.Number.Equality
import CharacterRules.Proofs.Outcome
import CharacterRules.Rule.Basic

/-!
Equality of clauses and of the rules that count them. It is not identity, since zero equals minus
zero and not-a-number differs from itself, but it is symmetric and equal clauses hold on the same
sheets.
-/

namespace CharacterRules

namespace Value

theorem beq_number_iff {v : Value} {n : Number} :
    (v == .number n) = true ↔ ∃ m, v = .number m ∧ (m == n) = true := by
  cases v with
  | number m => exact ⟨fun h => ⟨m, rfl, h⟩, by rintro ⟨_, ⟨⟩, h⟩; exact h⟩
  | text s => exact ⟨nofun, by rintro ⟨_, ⟨⟩, _⟩⟩

theorem beq_text_iff {v : Value} {s : String} : (v == .text s) = true ↔ v = .text s := by
  cases v with
  | number n => exact ⟨nofun, nofun⟩
  | text t =>
      show (t == s) = true ↔ _
      rw [beq_iff_eq, text.injEq]

theorem beq_symm {v w : Value} (h : (v == w) = true) : (w == v) = true := by
  cases w with
  | number n =>
      obtain ⟨m, rfl, equal⟩ := beq_number_iff.mp h
      exact Number.beq_symm equal
  | text s =>
      obtain rfl := beq_text_iff.mp h
      exact h

theorem beq_trans {u v w : Value} (h : (u == v) = true) (h' : (v == w) = true) :
    (u == w) = true := by
  cases w with
  | number n =>
      obtain ⟨m, rfl, equal'⟩ := beq_number_iff.mp h'
      obtain ⟨l, rfl, equal⟩ := beq_number_iff.mp h
      exact beq_number_iff.mpr ⟨l, rfl, Number.beq_trans equal equal'⟩
  | text s =>
      obtain rfl := beq_text_iff.mp h'
      exact h

/-- No attribute compares differently with equal values. -/
theorem orderOf_congr {v w : Value} (h : (v == w) = true) (actual : Value) :
    orderOf actual v = orderOf actual w := by
  cases w with
  | number n =>
      obtain ⟨m, rfl, equal⟩ := beq_number_iff.mp h
      rw [orderOf, orderOf]
      cases actual.number? with
      | none => exact congrArg (compare actual.display) (Number.display_congr equal)
      | some a => exact congrArg (·.getD .lt) (Number.order?_congr equal a)
  | text s => rw [beq_text_iff.mp h]

end Value

namespace Test

theorem beq_compare_iff {t : Test} {relation : Relation} {w : Value} :
    (t == .compare relation w) = true ↔ ∃ v, t = .compare relation v ∧ (v == w) = true := by
  cases t with
  | compare other v =>
      show (other == relation && v == w) = true ↔ _
      rw [Bool.and_eq_true, beq_iff_eq]
      constructor
      · rintro ⟨rfl, equal⟩
        exact ⟨v, rfl, equal⟩
      · rintro ⟨_, ⟨⟩, equal⟩
        exact ⟨rfl, equal⟩
  | «matches» p => exact ⟨nofun, by rintro ⟨_, ⟨⟩, _⟩⟩
  | differs p => exact ⟨nofun, by rintro ⟨_, ⟨⟩, _⟩⟩

theorem beq_matches_iff {t : Test} {q : Pattern} :
    (t == .matches q) = true ↔ t = .matches q := by
  cases t with
  | compare relation v => exact ⟨nofun, nofun⟩
  | «matches» p =>
      show (p == q) = true ↔ _
      rw [beq_iff_eq, matches.injEq]
  | differs p => exact ⟨nofun, nofun⟩

theorem beq_differs_iff {t : Test} {q : Pattern} :
    (t == .differs q) = true ↔ t = .differs q := by
  cases t with
  | compare relation v => exact ⟨nofun, nofun⟩
  | «matches» p => exact ⟨nofun, nofun⟩
  | differs p =>
      show (p == q) = true ↔ _
      rw [beq_iff_eq, differs.injEq]

theorem beq_symm {t u : Test} (h : (t == u) = true) : (u == t) = true := by
  cases u with
  | compare relation w =>
      obtain ⟨v, rfl, equal⟩ := beq_compare_iff.mp h
      exact beq_compare_iff.mpr ⟨w, rfl, Value.beq_symm equal⟩
  | «matches» q =>
      obtain rfl := beq_matches_iff.mp h
      exact h
  | differs q =>
      obtain rfl := beq_differs_iff.mp h
      exact h

theorem beq_trans {s t u : Test} (h : (s == t) = true) (h' : (t == u) = true) :
    (s == u) = true := by
  cases u with
  | compare relation w =>
      obtain ⟨v, rfl, equal'⟩ := beq_compare_iff.mp h'
      obtain ⟨u, rfl, equal⟩ := beq_compare_iff.mp h
      exact beq_compare_iff.mpr ⟨u, rfl, Value.beq_trans equal equal'⟩
  | «matches» q =>
      obtain rfl := beq_matches_iff.mp h'
      exact h
  | differs q =>
      obtain rfl := beq_differs_iff.mp h'
      exact h

theorem accepts_congr {t u : Test} (h : (t == u) = true) (actual : Option Value) :
    t.accepts actual = u.accepts actual := by
  cases u with
  | compare relation w =>
      obtain ⟨v, rfl, equal⟩ := beq_compare_iff.mp h
      simp only [accepts]
      rw [Value.orderOf_congr equal]
  | «matches» q => rw [beq_matches_iff.mp h]
  | differs q => rw [beq_differs_iff.mp h]

end Test

namespace Comparison

theorem beq_iff {a b : Comparison} :
    (a == b) = true ↔ a.operand = b.operand ∧ (a.test == b.test) = true := by
  show (a.operand == b.operand && a.test == b.test) = true ↔ _
  rw [Bool.and_eq_true, beq_iff_eq]

theorem beq_symm {a b : Comparison} (h : (a == b) = true) : (b == a) = true := by
  rw [beq_iff] at h ⊢
  exact ⟨h.1.symm, Test.beq_symm h.2⟩

theorem beq_trans {a b c : Comparison} (h : (a == b) = true) (h' : (b == c) = true) :
    (a == c) = true := by
  rw [beq_iff] at h h' ⊢
  exact ⟨h.1.trans h'.1, Test.beq_trans h.2 h'.2⟩

theorem holds_eq_of_beq {a b : Comparison} (h : (a == b) = true) (sheet : Attributes) :
    a.holds sheet = b.holds sheet := by
  obtain ⟨operand, test⟩ := beq_iff.mp h
  rw [holds, holds, operand, Test.accepts_congr test]

end Comparison

namespace Clause

theorem beq_iff {c d : Clause} : (c == d) = true ↔
    List.Forall₂ (fun a b => (a == b) = true) c.alternatives d.alternatives :=
  beq_iff_forall₂

theorem beq_symm {c d : Clause} (h : (c == d) = true) : (d == c) = true := by
  rw [beq_iff] at h ⊢
  exact (h.imp fun _ _ => Comparison.beq_symm).flip

theorem beq_trans {c d e : Clause} (h : (c == d) = true) (h' : (d == e) = true) :
    (c == e) = true := by
  rw [beq_iff] at h h' ⊢
  generalize c.alternatives = l at h ⊢
  generalize d.alternatives = m at h h'
  generalize e.alternatives = n at h' ⊢
  induction h generalizing n with
  | nil => exact h'
  | cons first later ih =>
      cases h' with
      | cons first' later' => exact .cons (Comparison.beq_trans first first') (ih _ later')

theorem beq_comm (c d : Clause) : (c == d) = (d == c) := by
  rw [Bool.eq_iff_iff]
  exact ⟨beq_symm, beq_symm⟩

/-- Equal clauses hold on the same sheets. -/
theorem holds_eq_of_beq {c d : Clause} (h : (c == d) = true) (sheet : Attributes) :
    c.holds sheet = d.holds sheet := by
  rw [beq_iff] at h
  rw [holds, holds]
  generalize c.alternatives = l at h ⊢
  generalize d.alternatives = m at h ⊢
  induction h with
  | nil => rfl
  | cons first later ih =>
      rw [List.any_cons, List.any_cons, Comparison.holds_eq_of_beq first, ih]

end Clause

theorem Rule.beq_iff {r s : Rule} : (r == s) = true ↔
    r.target = s.target ∧ r.source = s.source ∧ r.op = s.op ∧ (r.formula == s.formula) = true := by
  show (r.target == s.target && r.source == s.source && r.op == s.op && r.formula == s.formula) =
    true ↔ _
  simp only [Bool.and_eq_true, beq_iff_eq, and_assoc]

namespace Formula

theorem eq_passThrough_of_beq {f : Formula} (h : (f == .passThrough) = true) :
    f = .passThrough := by
  cases f with
  | passThrough => rfl
  | literal v => cases h
  | expr e => cases h
  | unmet p => cases h

/-- A formula that equals the count of one clause counts one that holds on the same sheets. -/
theorem exists_of_beq_unmet {f : Formula} {c : Clause} (h : (f == .unmet ⟨[c]⟩) = true) :
    ∃ d, f = .unmet ⟨[d]⟩ ∧ ∀ sheet, d.holds sheet = c.holds sheet := by
  cases f with
  | passThrough => cases h
  | literal v => cases h
  | expr e => cases h
  | unmet p =>
      obtain ⟨clauses⟩ := p
      have equal : (clauses == [c]) = true := h
      cases clauses with
      | nil => cases equal
      | cons d rest =>
          rw [List.cons_beq_cons, Bool.and_eq_true] at equal
          cases rest with
          | nil => exact ⟨d, rfl, Clause.holds_eq_of_beq equal.1⟩
          | cons e rest => cases equal.2

end Formula
end CharacterRules
