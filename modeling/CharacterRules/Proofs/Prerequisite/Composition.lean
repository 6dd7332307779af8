import CharacterRules.Proofs.Prerequisite.Equality
import CharacterRules.Proofs.Prerequisite.Written

/-!
Requirements put together from texts. A comma behind a text that closes its quotes and brackets separates,
and so do two bars behind a text that does not end in one; what is on both sides is read as it is read
alone, and the whole holds if both sides hold, or if one of them does.
-/

namespace CharacterRules.Prerequisite

/-- Whether a text closes the quotes and the brackets that it opens. -/
def IsClosed (text : String) : Prop := (Nesting.run {} text.toList).isTop = true

theorem splitCommas_ne_nil (n : Nesting) (text : List Char) : splitCommas n text ≠ [] := by
  fun_induction splitCommas n text <;> exact List.cons_ne_nil _ _

/-- A comma behind a text that closes what it opens is one of those that separate. -/
theorem splitCommas_of_isTop {n : Nesting} {text : List Char}
    (closed : (n.run text).isTop = true) (rest : List Char) :
    splitCommas n (text ++ ',' :: rest) = splitCommas n text ++ splitCommas {} rest := by
  induction text generalizing n with
  | nil =>
      obtain rfl := Nesting.eq_of_isTop closed
      rfl
  | cons c text ih =>
      rw [List.cons_append, splitCommas, splitCommas]
      split
      · rename_i separates
        have stays : n.step c = n := by
          rw [Bool.and_eq_true, beq_iff_eq] at separates
          obtain ⟨rfl, top⟩ := separates
          obtain rfl := Nesting.eq_of_isTop top
          rfl
        have later : (n.run text).isTop = true := by
          rw [← stays]
          exact closed
        rw [ih later]
        rfl
      · rw [ih closed]
        obtain ⟨part, parts, split⟩ := List.exists_cons_of_ne_nil (splitCommas_ne_nil (n.step c) text)
        rw [split]
        rfl

theorem splitTopLevel_append {a : String} (closed : IsClosed a) (b : String) :
    splitTopLevel (a ++ "," ++ b) = splitTopLevel a ++ splitTopLevel b := by
  have text : (a ++ "," ++ b).toList = a.toList ++ ',' :: b.toList := by simp
  rw [splitTopLevel, text, splitCommas_of_isTop closed, List.map_append, List.filter_append,
    List.map_append]
  rfl

/-- Two bars behind a text that does not end in one are among those that separate. -/
theorem splitBars_of_getLast? {text : List Char} (last : text.getLast? ≠ some '|')
    (rest : List Char) :
    splitBars (text ++ '|' :: '|' :: rest) = splitBars text ++ splitBars rest := by
  fun_induction splitBars text with
  | case1 => rfl
  | case2 c =>
      have bars : splitBars ('|' :: '|' :: rest) = [] :: splitBars rest := rfl
      exact splitBars_cons bars fun h => last (congrArg some h.1)
  | case3 c d text bars ih =>
      have later : splitBars (text ++ '|' :: '|' :: rest) = splitBars text ++ splitBars rest := by
        refine ih fun ends => last ?_
        simp [List.getLast?_cons, ends]
      rw [List.cons_append, List.cons_append, splitBars, if_pos bars, later]
      rfl
  | case4 c d text single part parts split ih =>
      have later := ih (by simpa using last)
      rw [split] at later
      refine splitBars_cons later ?_
      rintro ⟨rfl, next⟩
      obtain rfl : d = '|' := Option.some.inj next
      exact single rfl
  | case5 c d text single split ih => exact absurd split (splitBars_ne_nil _)

theorem ofText_eq_ok_iff {text : String} {p : Prerequisite} : ofText text = .ok p ↔
    ∃ clauses, (splitTopLevel text).mapM readClause = .ok clauses ∧
      p = ⟨addClauses [] clauses⟩ := by
  rw [ofText, ofTexts, List.flatMap_singleton]
  constructor
  · intro h
    obtain ⟨clauses, read, same⟩ := exists_of_bind_eq_ok h
    exact ⟨clauses, read, (Except.ok.inj same).symm⟩
  · rintro ⟨clauses, read, rfl⟩
    rw [read]
    rfl

/-- Leaving out a clause that equals an earlier one changes no sheet on which all of them hold. -/
theorem all_holds_addClauses (known more : List Clause) (sheet : Attributes) :
    (addClauses known more).all (·.holds sheet) =
      (known.all (·.holds sheet) && more.all (·.holds sheet)) := by
  induction more generalizing known with
  | nil => exact (Bool.and_true _).symm
  | cons c more ih =>
      rw [addClauses_cons, ih, List.all_cons, ← Bool.and_assoc]
      congr 1
      split
      · rename_i member
        rw [← List.any_beq, List.any_eq_true] at member
        obtain ⟨d, inside, equal⟩ := member
        rw [Clause.holds_eq_of_beq equal, eq_comm, Bool.and_eq_left_iff_imp]
        exact fun all => List.all_eq_true.mp all d inside
      · simp

theorem holds_addClauses (clauses : List Clause) (sheet : Attributes) :
    holds ⟨addClauses [] clauses⟩ sheet = clauses.all (·.holds sheet) :=
  (all_holds_addClauses [] clauses sheet).trans (Bool.true_and _)

theorem readClause_append_eq_ok_iff {a : String} (last : a.toList.getLast? ≠ some '|') {b : String}
    {c : Clause} : readClause (a ++ "||" ++ b) = .ok c ↔ ∃ left right,
      readClause a = .ok left ∧ readClause b = .ok right ∧
        c = ⟨left.alternatives ++ right.alternatives⟩ := by
  have text : (a ++ "||" ++ b).toList = a.toList ++ '|' :: '|' :: b.toList := by simp
  rw [readClause, text, splitBars_of_getLast? last, map_eq_ok_iff]
  simp only [readClause, map_eq_ok_iff, mapM_append_eq_ok_iff]
  constructor
  · rintro ⟨_, ⟨cs, ds, first, second, rfl⟩, rfl⟩
    exact ⟨⟨cs⟩, ⟨ds⟩, ⟨cs, first, rfl⟩, ⟨ds, second, rfl⟩, rfl⟩
  · rintro ⟨_, _, ⟨cs, first, rfl⟩, ⟨ds, second, rfl⟩, rfl⟩
    exact ⟨cs ++ ds, ⟨cs, ds, first, second, rfl⟩, rfl⟩

/-- Texts of requirements with a comma between them are read if both are, and hold if both do; texts of
clauses with two bars between them are read if both are, and hold if one does. -/
theorem holds_of_joined (a b : String) :
    (IsClosed a →
      ((∃ r, ofText (a ++ "," ++ b) = .ok r) ↔
        (∃ p, ofText a = .ok p) ∧ ∃ q, ofText b = .ok q) ∧
      ∀ p q r, ofText a = .ok p → ofText b = .ok q → ofText (a ++ "," ++ b) = .ok r →
        ∀ sheet, r.holds sheet = (p.holds sheet && q.holds sheet)) ∧
    (a.toList.getLast? ≠ some '|' →
      ((∃ c, readClause (a ++ "||" ++ b) = .ok c) ↔
        (∃ c, readClause a = .ok c) ∧ ∃ c, readClause b = .ok c) ∧
      ∀ left right c, readClause a = .ok left → readClause b = .ok right →
        readClause (a ++ "||" ++ b) = .ok c →
        ∀ sheet, c.holds sheet = (left.holds sheet || right.holds sheet)) := by
  refine ⟨fun closed => ⟨?_, ?_⟩, fun last => ⟨?_, ?_⟩⟩
  · simp only [ofText_eq_ok_iff, splitTopLevel_append closed, mapM_append_eq_ok_iff]
    constructor
    · rintro ⟨_, _, ⟨cs, ds, first, second, rfl⟩, rfl⟩
      exact ⟨⟨_, cs, first, rfl⟩, _, ds, second, rfl⟩
    · rintro ⟨⟨_, cs, first, rfl⟩, _, ds, second, rfl⟩
      exact ⟨_, cs ++ ds, ⟨cs, ds, first, second, rfl⟩, rfl⟩
  · simp only [ofText_eq_ok_iff, splitTopLevel_append closed, mapM_append_eq_ok_iff]
    rintro _ _ _ ⟨cs, first, rfl⟩ ⟨ds, second, rfl⟩ ⟨_, ⟨cs', ds', first', second', rfl⟩, rfl⟩
    intro sheet
    obtain rfl := Except.ok.inj (first'.symm.trans first)
    obtain rfl := Except.ok.inj (second'.symm.trans second)
    rw [holds_addClauses, holds_addClauses, holds_addClauses, List.all_append]
  · simp only [readClause_append_eq_ok_iff last]
    constructor
    · rintro ⟨_, left, right, first, second, rfl⟩
      exact ⟨⟨left, first⟩, right, second⟩
    · rintro ⟨⟨left, first⟩, right, second⟩
      exact ⟨_, left, right, first, second, rfl⟩
  · rintro left right c first second whole sheet
    obtain ⟨left', right', first', second', rfl⟩ := (readClause_append_eq_ok_iff last).mp whole
    obtain rfl := Except.ok.inj (first'.symm.trans first)
    obtain rfl := Except.ok.inj (second'.symm.trans second)
    exact List.any_append

/-- A requirement with a comma in quotes before one whose quote is not closed, and two clauses. -/
theorem holds_of_joined_halfElf :
    (∃ p q r, ofText "race == 'Half, Elf'" = .ok p ∧ ofText "race != 'Elf, tall" = .ok q ∧
      ofText "race == 'Half, Elf',race != 'Elf, tall" = .ok r ∧
        ∀ sheet, r.holds sheet = (p.holds sheet && q.holds sheet)) ∧
    ∃ left right c, readClause "smarts >= 8" = .ok left ∧
      readClause "features.Bookworm" = .ok right ∧
      readClause "smarts >= 8||features.Bookworm" = .ok c ∧
        ∀ sheet, c.holds sheet = (left.holds sheet || right.holds sheet) := by
  have closed : IsClosed "race == 'Half, Elf'" := rfl
  have last : "smarts >= 8".toList.getLast? ≠ some '|' := by decide
  obtain ⟨reads, both⟩ := (holds_of_joined "race == 'Half, Elf'" "race != 'Elf, tall").1 closed
  obtain ⟨reads', either⟩ := (holds_of_joined "smarts >= 8" "features.Bookworm").2 last
  obtain ⟨r, whole⟩ := reads.mpr ⟨⟨_, rfl⟩, _, rfl⟩
  obtain ⟨c, whole'⟩ := reads'.mpr ⟨⟨_, rfl⟩, _, rfl⟩
  exact ⟨⟨_, _, r, rfl, rfl, whole, both _ _ r rfl rfl whole⟩,
    _, _, c, rfl, rfl, whole', either _ _ c rfl rfl whole'⟩

end CharacterRules.Prerequisite
