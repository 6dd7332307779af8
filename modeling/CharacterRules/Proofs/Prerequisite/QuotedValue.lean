import CharacterRules.Proofs.Prerequisite.ShownComparison

/-!
Comparisons of an attribute with a text in quotes. The quotes protect commas, brackets, operators, digits
and white space in the text. They do not protect two bars in a row: these divide a clause wherever they
stand.
-/

namespace CharacterRules.Prerequisite

/-- Whether a character can stand in the name of an attribute. -/
def isKeyChar (c : Char) : Bool := c.isAlphanum || c == '.'

theorem isKeyChar_spec {c : Char} (h : isKeyChar c = true) : isInert c = true ∧
    Unicode.isSpace c = false ∧ List.contains ['=', '!', '<', '>'] c = false := by
  rw [isKeyChar, Bool.or_eq_true, beq_iff_eq] at h
  obtain letter | rfl := h
  · exact Unicode.of_isAlphanum (P := fun c => isInert c = true ∧ Unicode.isSpace c = false ∧
      List.contains ['=', '!', '<', '>'] c = false) (by decide) letter
  · decide

/-- The name of an attribute, in letters, digits and dots. -/
structure IsKeyName (key : List Char) : Prop where
  nonempty : key ≠ []
  chars : ∀ c ∈ key, isKeyChar c = true

namespace IsKeyName

variable {key : List Char} (h : IsKeyName key)

include h

theorem isInert {c : Char} (member : c ∈ key) : isInert c = true :=
  (isKeyChar_spec (h.chars c member)).1

theorem isSpace {c : Char} (member : c ∈ key) : Unicode.isSpace c = false :=
  (isKeyChar_spec (h.chars c member)).2.1

theorem isKey : IsKey key := by
  refine ⟨.of_visible h.nonempty fun c member => h.isSpace member, ?_, ?_⟩
  · have chars := h.chars
    clear h
    induction key with
    | nil => rfl
    | cons c key ih =>
        obtain ⟨own, later⟩ := List.forall_mem_cons.mp chars
        have plain := (isKeyChar_spec own).2.2
        simp only [List.contains_eq_mem, List.mem_cons, List.not_mem_nil, or_false,
          decide_eq_false_iff_not, not_or] at plain
        obtain ⟨equal, unequal, less, greater⟩ := plain
        refine findOperator?_cons_eq_none_iff.mpr ⟨operatorAt?_eq_none_iff.mpr ?_, ih later⟩
        exact ⟨less, greater, fun op => (op.elim equal unequal).elim⟩
  · exact isWhole_of_notMem fun bar => absurd (h.isInert bar) (by decide)

end IsKeyName

section Commas

theorem keepsCommas_append (n : Nesting) (text rest : List Char) :
    keepsCommas n (text ++ rest) = (keepsCommas n text && keepsCommas (n.run text) rest) := by
  induction text generalizing n with
  | nil => rfl
  | cons c text ih =>
      rw [List.cons_append, keepsCommas, keepsCommas, ih, Bool.and_assoc]
      rfl

theorem keepsCommas_of_inert {text : List Char} (inert : ∀ c ∈ text, isInert c = true) :
    keepsCommas {} text = true ∧ Nesting.run {} text = {} := by
  induction text with
  | nil => exact ⟨rfl, rfl⟩
  | cons c text ih =>
      obtain ⟨own, later⟩ := List.forall_mem_cons.mp inert
      obtain ⟨other, step⟩ := step_of_isInert own
      obtain ⟨kept, stays⟩ := ih later
      have first : Nesting.run {} (c :: text) = (Nesting.step {} c).run text := rfl
      rw [keepsCommas, first, step, kept, stays, beq_eq_false_iff_ne.mpr other]
      exact ⟨rfl, rfl⟩

/-- Nothing separates up to the closing quote. -/
theorem keepsCommas_quoted {mark : Char} {text : List Char} (plain : mark ∉ text) (depth : Nat) :
    keepsCommas ⟨some mark, depth⟩ (text ++ [mark]) = true := by
  induction text with
  | nil => simp [keepsCommas, Nesting.isTop]
  | cons c text ih =>
      obtain ⟨own, later⟩ := not_or.mp (List.mem_cons.not.mp plain)
      have stays : Nesting.step ⟨some mark, depth⟩ c = ⟨some mark, depth⟩ := by
        simp [Nesting.step, Ne.symm own]
      rw [List.cons_append, keepsCommas, stays, ih later]
      simp [Nesting.isTop]

end Commas

/-- The parts between the bars of a text make it up. -/
theorem intercalate_splitBars (text : List Char) :
    List.intercalate ['|', '|'] (splitBars text) = text := by
  fun_induction splitBars text with
  | case1 => rfl
  | case2 c => rfl
  | case3 c d rest bars ih =>
      obtain ⟨first, second⟩ := Bool.and_eq_true_iff.mp bars
      obtain ⟨part, parts, split⟩ := List.exists_cons_of_ne_nil (splitBars_ne_nil rest)
      rw [split] at ih ⊢
      rw [List.intercalate_cons_cons, ih, eq_of_beq first, eq_of_beq second]
      rfl
  | case4 c d rest single part parts split ih =>
      rw [split] at ih
      rw [← ih]
      cases parts with
      | nil => simp
      | cons next parts => simp [List.intercalate_cons_cons]
  | case5 c d rest single split ih => exact absurd split (splitBars_ne_nil _)

theorem isWhole_of_splitBars {text part : List Char} (alone : splitBars text = [part]) :
    IsWhole text := by
  have same := intercalate_splitBars text
  rw [alone, List.intercalate_singleton] at same
  refine @isWhole_of_mem_splitBars text _ ?_
  rw [alone, same]
  exact List.mem_singleton_self text

section Comparisons

variable {key text : String} (name : IsKeyName key.toList) (plain : '\'' ∉ text.toList)
  (r : Relation)

/-- The comparison of an attribute with a text. -/
def textComparison (key : String) (r : Relation) (text : String) : Comparison :=
  ⟨.key key, .compare r (.text text)⟩

/-- The comparison with the text in quotes. -/
def quotedComparison (key : String) (r : Relation) (text : String) : String :=
  key ++ " " ++ r.symbol ++ " '" ++ text ++ "'"

theorem toList_quotedComparison (key : String) (r : Relation) (text : String) :
    (quotedComparison key r text).toList =
      key.toList ++ ' ' :: (r.symbol.toList ++ ' ' :: '\'' :: (text.toList ++ ['\''])) := by
  simp [quotedComparison]

include plain in
theorem quotedComparison_eq_display :
    quotedComparison key r text = (textComparison key r text).display := by
  have same : Text.escapeChars (· == '\'') text.toList = text.toList :=
    Text.escapeChars_eq_self fun c member => beq_eq_false_iff_ne.mpr fun h => plain (h ▸ member)
  rw [← String.toList_inj, toList_quotedComparison, Comparison.toList_display]
  change _ = key.toList ++ ' ' :: (r.symbol.toList ++ ' ' :: quoteChars text.toList)
  rw [quoteChars, same]

include name in
/-- Behind the word for many attributes there would be a quote, not an operator. -/
theorem aggregate?_quotedComparison : aggregate? (quotedComparison key r text).toList = none := by
  rw [Option.eq_none_iff_forall_ne_some]
  intro found h
  obtain ⟨largest, rest, whole, behind⟩ := aggregate?_eq_some_iff.mp h
  obtain ⟨blank, mark, source, back, rfl, nonempty, spaces, quote, -⟩ :=
    aggregateBehind?_eq_some_iff.mp behind
  have word : (aggregateWord largest).all (!Unicode.isSpace ·) = true := by
    cases largest <;> decide
  have visible : ∀ c ∈ key.toList, (!Unicode.isSpace c) = true := fun c member => by
    rw [name.isSpace member]
    rfl
  obtain ⟨b, blank, rfl⟩ := List.exists_cons_of_ne_nil nonempty
  have stop : (!Unicode.isSpace b) = false := by rw [spaces b List.mem_cons_self]; rfl
  rw [toList_quotedComparison] at whole
  -- both sides up to their first white space: the key is the word itself
  have front := congrArg (List.takeWhile fun c => !Unicode.isSpace c) whole
  rw [Text.takeWhile_append_of_stop visible (by simp; decide),
    Text.takeWhile_append_of_stop (List.all_eq_true.mp word) (by simpa using stop)] at front
  rw [front, List.append_cancel_left_eq] at whole
  have symbol : ∃ c rest, r.symbol.toList = c :: rest ∧ Unicode.isSpace c = false ∧ c ≠ '\'' ∧
      c ≠ '"' := by
    cases r <;> exact ⟨_, _, rfl, by decide⟩
  obtain ⟨c, symbol, same, visible, single, double⟩ := symbol
  rw [same] at whole
  obtain ⟨-, behind⟩ := List.cons.inj whole
  cases blank with
  | nil =>
      obtain ⟨rfl, -⟩ := List.cons.inj behind
      exact quote.elim single double
  | cons d blank =>
      obtain ⟨rfl, -⟩ := List.cons.inj behind
      exact Bool.false_ne_true (visible.symm.trans (spaces c (by simp)))

include name plain

theorem trimmed_quotedComparison : Text.IsTrimmed (quotedComparison key r text).toList := by
  have ends := name.isKey.trimmed.append (Test.isTrimmed_valueText (.compare r (.text text)))
    (' ' :: (r.symbol.toList ++ [' ']))
  rw [quotedComparison_eq_display plain, Comparison.toList_display]
  simpa [textComparison, Operand.display, Test.comparator, Comparator.symbol] using ends

theorem splitTopLevel_quotedComparison :
    splitTopLevel (quotedComparison key r text) = [quotedComparison key r text] := by
  have symbol : keepsCommas {} (' ' :: r.symbol.toList ++ [' ', '\'']) = true ∧
      Nesting.run {} (' ' :: r.symbol.toList ++ [' ', '\'']) = ⟨some '\'', 0⟩ := by
    cases r <;> decide
  obtain ⟨kept, stays⟩ := keepsCommas_of_inert fun c member => name.isInert member
  have commas : keepsCommas {} (quotedComparison key r text).toList = true := by
    have parts : (quotedComparison key r text).toList =
        key.toList ++ ((' ' :: r.symbol.toList ++ [' ', '\'']) ++ (text.toList ++ ['\''])) := by
      rw [toList_quotedComparison]
      simp
    rw [parts, keepsCommas_append, kept, stays, keepsCommas_append, symbol.1, symbol.2,
      keepsCommas_quoted plain]
    rfl
  have split : splitCommas {} (quotedComparison key r text).toList =
      [(quotedComparison key r text).toList] := by
    have last : splitCommas (Nesting.run {} (quotedComparison key r text).toList) [] = [[]] := rfl
    simpa using splitCommas_append commas last
  have trimmed := trimmed_quotedComparison name plain r
  have unquoted : stripQuotes (quotedComparison key r text).toList =
      (quotedComparison key r text).toList := by
    obtain ⟨c, rest, same⟩ := List.exists_cons_of_ne_nil name.nonempty
    have inert : isInert c = true := name.isInert (same ▸ List.mem_cons_self)
    rw [toList_quotedComparison, same]
    exact stripQuotes_of_inert inert _
  rw [splitTopLevel, split]
  simp [trimmed.trimChars_eq (.refl _), unquoted, trimmed.ne_nil]

theorem readComparison_quotedComparison :
    readComparison (quotedComparison key r text).toList = .ok (textComparison key r text) := by
  have trimmed := trimmed_quotedComparison name plain r
  have nonempty : ¬(quotedComparison key r text).toList.isEmpty = true :=
    List.isEmpty_iff.not.mpr trimmed.ne_nil
  have value : literal (' ' :: quoteChars text.toList) = .text text :=
    literal_quoteChars_eq_iff.mpr plain
  have single : readSingle (quotedComparison key r text).toList = .ok (textComparison key r text) := by
    rw [quotedComparison_eq_display plain, textComparison, readSingle_display name.isKey,
      Test.comparator, readTest_relation, Test.valueText, value]
    rfl
  simp only [readComparison, mapError_eq_ok_iff, trimmed.trimChars_eq (.refl _), if_neg nonempty,
    aggregate?_quotedComparison name r, single]

theorem readClause_quotedComparison :
    readClause (quotedComparison key r text) = .ok ⟨[textComparison key r text]⟩ ↔
      IsWhole text.toList := by
  constructor
  · intro read
    obtain ⟨alternatives, reads, same⟩ := map_eq_ok_iff.mp read
    obtain rfl := Clause.mk.inj same
    obtain ⟨part, rest, -, nothing, split⟩ :=
      List.forall₂_cons_right_iff.mp (mapM_eq_ok_iff.mp reads)
    obtain rfl := List.forall₂_nil_right_iff.mp nothing
    refine (isWhole_of_splitBars split).of_isInfix ?_
    refine ⟨key.toList ++ ' ' :: (r.symbol.toList ++ [' ', '\'']), ['\''], ?_⟩
    rw [toList_quotedComparison]
    simp
  · intro whole
    have written : IsWritten (textComparison key r text) := .single name.isKey whole
    have bars : IsWhole (quotedComparison key r text).toList := by
      rw [quotedComparison_eq_display plain]
      exact written.whole_display
    rw [readClause, splitBars_of_isWhole bars, List.mapM_cons, List.mapM_nil,
      readComparison_quotedComparison name plain]
    rfl

end Comparisons

/-- The comparison of an attribute with a text in quotes is read as that one comparison if and only if
the text has no two bars in a row, whatever else is in it. -/
theorem ofText_quotedComparison {key text : String} (name : IsKeyName key.toList)
    (plain : '\'' ∉ text.toList) (r : Relation) :
    ofText (quotedComparison key r text) = .ok (single (textComparison key r text)) ↔
      IsWhole text.toList := by
  rw [← readClause_quotedComparison name plain r, ofText, ofTexts, List.flatMap_singleton,
    splitTopLevel_quotedComparison name plain, List.mapM_cons, List.mapM_nil]
  cases readClause (quotedComparison key r text) with
  | error fault =>
      constructor <;> intro h <;> cases h
  | ok clause =>
      constructor
      · intro h
        have clauses := congrArg Prerequisite.clauses (Except.ok.inj h)
        exact congrArg Except.ok (List.cons.inj clauses).1
      · rintro ⟨⟩
        rfl

/-- A text with a comma, an operator, brackets that do not match and a single bar. -/
theorem ofText_quotedComparison_elf :
    ofText "race != '5 >= (Elf], |Dwarf|'" =
      .ok (single (textComparison "race" .ne "5 >= (Elf], |Dwarf|")) := by
  have letters : "race".toList.all isKeyChar = true := by decide
  have name : IsKeyName "race".toList := ⟨by decide, List.all_eq_true.mp letters⟩
  have whole : IsWhole "5 >= (Elf], |Dwarf|".toList := by
    unfold IsWhole
    decide
  have same : quotedComparison "race" .ne "5 >= (Elf], |Dwarf|" = "race != '5 >= (Elf], |Dwarf|'" := by
    decide
  rw [← same]
  exact (ofText_quotedComparison name (by decide) .ne).mpr whole

/-- Two bars between the quotes begin another alternative. -/
theorem ofText_elfOrDwarf :
    ofText "race == 'Elf||Dwarf'" =
      .ok ⟨[⟨[textComparison "race" .eq "'Elf", ⟨.key "Dwarf'", isNonzero⟩]⟩]⟩ ∧
    IsKeyName "race".toList ∧ '\'' ∉ "Elf||Dwarf".toList ∧ '"' ∉ "Elf||Dwarf".toList ∧
    ofText (quotedComparison "race" .eq "Elf||Dwarf") ≠
      .ok (single (textComparison "race" .eq "Elf||Dwarf")) := by
  have read : ofText "race == 'Elf||Dwarf'" =
      .ok ⟨[⟨[textComparison "race" .eq "'Elf", ⟨.key "Dwarf'", isNonzero⟩]⟩]⟩ := rfl
  have same : quotedComparison "race" .eq "Elf||Dwarf" = "race == 'Elf||Dwarf'" := by decide
  have letters : "race".toList.all isKeyChar = true := by decide
  refine ⟨read, ⟨by decide, List.all_eq_true.mp letters⟩, by decide, by decide, ?_⟩
  rw [same, read]
  intro one
  obtain ⟨clause, -⟩ := List.cons.inj (congrArg Prerequisite.clauses (Except.ok.inj one))
  exact absurd (congrArg (·.alternatives.length) clause) (by decide)

end CharacterRules.Prerequisite
