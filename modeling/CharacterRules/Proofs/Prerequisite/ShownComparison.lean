import CharacterRules.Proofs.Prerequisite.Quoting

/-!
Reading a comparison back from its text. A comparison of one attribute is read back unless its attribute
is shown like many attributes at once, and one of many attributes unless its pattern has single quotes.
-/

namespace CharacterRules

namespace Operand

open Prerequisite

theorem toList_display_aggregate (largest : Bool) (p : Pattern) :
    (aggregate largest p).display.toList =
      aggregateWord largest ++ ' ' :: quoteChars p.source.toList := by
  cases largest <;> simp [aggregate, display, aggregateWord, toList_singleQuoted]

end Operand

namespace Comparison

open Prerequisite

/-- Whether a comparison is read back from its text. An attribute must not be shown like many
attributes at once, and the pattern of many attributes must have no single quotes. -/
def IsShown (c : Comparison) : Prop :=
  c.test.IsShown ∧
    match c.operand with
    | .key _ => aggregate? c.display.toList = none
    | .sum p => '\'' ∉ p.source.toList
    | .max p => '\'' ∉ p.source.toList

theorem isShown_aggregate {largest : Bool} {p : Pattern} {test : Test} :
    IsShown ⟨.aggregate largest p, test⟩ ↔ test.IsShown ∧ '\'' ∉ p.source.toList := by
  cases largest <;> exact Iff.rfl

theorem toList_display (c : Comparison) : c.display.toList =
    c.operand.display.toList ++ ' ' :: (c.test.comparator.symbol.toList ++ ' ' :: c.test.valueText) := by
  simp [display, Test.toList_display]

end Comparison

namespace Prerequisite

theorem IsWritten.whole_quotedText {c : Comparison} (written : IsWritten c) :
    IsWhole c.test.quotedText := by
  cases written with
  | single key whole => exact whole
  | aggregate largest source whole line => exact whole

theorem IsWritten.whole_display {c : Comparison} (written : IsWritten c) :
    IsWhole c.display.toList := by
  have test : IsWhole (c.test.comparator.symbol.toList ++ ' ' :: c.test.valueText) :=
    (isWhole_of_notMem fun bar => absurd (mem_of_mem_symbol '|' bar) (by decide)).append_cons
      (isWhole_valueText written.whole_quotedText) (by decide)
  rw [Comparison.toList_display]
  cases written with
  | single key whole => exact key.whole.append_cons test (by decide)
  | @aggregate largest p test source whole line =>
      have word : IsWhole (aggregateWord largest) := by
        refine isWhole_of_notMem ?_
        cases largest <;> decide
      rw [Operand.toList_display_aggregate]
      exact (word.append_cons (isWhole_quoteChars source) (by decide)).append_cons test (by decide)

theorem IsWritten.trimmed_operand {c : Comparison} (written : IsWritten c) :
    Text.IsTrimmed c.operand.display.toList := by
  cases written with
  | single key whole => exact key.trimmed
  | @aggregate largest p test source whole line =>
      have word : Text.IsTrimmed (aggregateWord largest) := by
        cases largest <;> exact ⟨_, _, rfl, rfl, rfl, rfl⟩
      rw [Operand.toList_display_aggregate]
      exact word.append (isTrimmed_quoteChars _) [' ']

theorem IsWritten.trimmed_display {c : Comparison} (written : IsWritten c) :
    Text.IsTrimmed c.display.toList := by
  have trimmed := written.trimmed_operand.append c.test.isTrimmed_valueText
    (' ' :: (c.test.comparator.symbol.toList ++ [' ']))
  rw [Comparison.toList_display]
  simpa using trimmed

theorem notMem_of_aggregate? {largest largest' : Bool} {rest source after : List Char}
    (h : aggregate? (aggregateWord largest ++ ' ' :: '\'' :: rest) = some (largest', source, after)) :
    '\'' ∉ source := by
  obtain ⟨word, behind, same, found⟩ := aggregate?_eq_some_iff.mp h
  have behind : behind = ' ' :: '\'' :: rest := by
    cases largest <;> cases word <;> cases same <;> rfl
  obtain ⟨blank, mark, _, back, whole, nonempty, spaces, -, plain, -, same⟩ :=
    aggregateBehind?_eq_some_iff.mp found
  cases same
  rw [behind] at whole
  cases blank with
  | nil => exact absurd rfl nonempty
  | cons c blank =>
      cases blank with
      | nil =>
          cases whole
          exact plain
      | cons d blank =>
          cases whole
          exact absurd (spaces '\'' (by simp)) (by decide)

theorem aggregate?_quoteChars {source : List Char} (plain : '\'' ∉ source) (largest : Bool)
    {after : List Char} (line : '\n' ∉ after) (trimmed : Text.IsTrimmed after) :
    aggregate? (aggregateWord largest ++ ' ' :: (quoteChars source ++ ' ' :: after)) =
      some (largest, source, after) := by
  obtain ⟨c, -, first, -, visible, -⟩ := trimmed
  have blank : ∀ c ∈ [' '], Unicode.isSpace c = true := List.forall_mem_singleton.mpr rfl
  have behind : (' ' :: after).dropWhile Unicode.isSpace = after :=
    Text.dropWhile_append_of_visible blank first visible
  have same : Text.escapeChars (· == '\'') source = source :=
    Text.escapeChars_eq_self fun c member => beq_eq_false_iff_ne.mpr fun h => plain (h ▸ member)
  refine aggregate?_eq_some_iff.mpr ⟨largest, _, rfl, aggregateBehind?_eq_some_iff.mpr
    ⟨[' '], '\'', source, ' ' :: after, ?_, by simp, blank, .inl rfl, plain, ?_, ?_⟩⟩
  · rw [quoteChars, same]
    simp
  · rwa [behind]
  · rw [behind]

theorem exists_map_beq_iff {ε : Type} {x : Except ε Test} {operand : Operand} {t : Test} :
    (∃ d, x.map (Comparison.mk operand) = .ok d ∧ (d == ⟨operand, t⟩) = true) ↔
      ∃ u, x = .ok u ∧ (u == t) = true := by
  constructor
  · rintro ⟨d, read, equal⟩
    obtain ⟨u, value, rfl⟩ := map_eq_ok_iff.mp read
    exact ⟨u, value, (Comparison.beq_iff.mp equal).2⟩
  · rintro ⟨u, read, equal⟩
    exact ⟨_, map_eq_ok_iff.mpr ⟨u, read, rfl⟩, Comparison.beq_iff.mpr ⟨rfl, equal⟩⟩

theorem readSingle_display {name : String} (key : IsKey name.toList) (t : Test) :
    readSingle (Comparison.mk (.key name) t).display.toList =
      (readTest t.comparator (' ' :: t.valueText)).map (Comparison.mk (.key name)) := by
  have trimmed : Text.trimChars (name.toList ++ [' ']) = name.toList :=
    key.trimmed.trimChars_eq ⟨[], [' '], by simp, by simp; decide, rfl⟩
  have nonempty : ¬name.toList.isEmpty = true := List.isEmpty_iff.not.mpr key.trimmed.ne_nil
  rw [Comparison.toList_display]
  unfold readSingle
  rw [Operand.display, findOperator?_append key.plain]
  dsimp only
  rw [trimmed, if_neg nonempty, String.ofList_toList]

theorem readAggregate_display (largest : Bool) (p : Pattern) (t : Test) :
    readAggregate largest p.source.toList t.display.toList =
      (readTest t.comparator (' ' :: t.valueText)).map (Comparison.mk (.aggregate largest p)) := by
  have trimmed : Text.trimChars t.display.toList = t.display.toList :=
    t.isTrimmed_display.trimChars_eq (.refl _)
  simp only [readAggregate, readPattern_eq_ok_iff.mpr rfl, trimmed, bind, Except.bind]
  rw [Test.toList_display, findOperator?_symbol]
  dsimp only
  cases readTest t.comparator (' ' :: t.valueText) <;> rfl

/-- A comparison is read back from its text as an equal one if it is one that is shown as it is. -/
theorem exists_readComparison_iff {c : Comparison} (written : IsWritten c) {text : List Char}
    (padded : Text.IsPadded c.display.toList text) :
    (∃ d, readComparison text = .ok d ∧ (d == c) = true) ↔ c.IsShown := by
  have trimmed := written.trimmed_display
  have nonempty : ¬c.display.toList.isEmpty = true := List.isEmpty_iff.not.mpr trimmed.ne_nil
  have whole := written.whole_display
  simp only [readComparison, mapError_eq_ok_iff, trimmed.trimChars_eq padded, if_neg nonempty]
  cases written with
  | @single name test key _ =>
      cases found : aggregate? (Comparison.mk (.key name) test).display.toList with
      | none =>
          rw [readSingle_display key, exists_map_beq_iff, exists_readTest_iff]
          exact (and_iff_left found).symm
      | some behind =>
          constructor
          -- a key whose text is taken for an aggregate is read as one, which is another operand
          · rintro ⟨d, read, equal⟩
            obtain ⟨p, u, rfl, -, -⟩ := exists_of_readAggregate read
            have same := (Comparison.beq_iff.mp equal).1
            unfold Operand.aggregate at same
            split at same <;> cases same
          · intro shown
            cases found.symm.trans shown.2
  | @aggregate largest p test source _ line =>
      have text : (Comparison.mk (.aggregate largest p) test).display.toList =
          aggregateWord largest ++ ' ' :: (quoteChars p.source.toList ++ ' ' :: test.display.toList) := by
        rw [Comparison.toList_display, Operand.toList_display_aggregate, Test.toList_display]
        simp
      rw [Comparison.isShown_aggregate]
      -- single quotes in a pattern are shown with escapes, but the reading stops at them
      by_cases quote : '\'' ∈ p.source.toList
      · refine ⟨?_, fun shown => absurd quote shown.2⟩
        rintro ⟨d, read, equal⟩
        have same := (Comparison.beq_iff.mp equal).1
        split at read
        · rename_i largest' source' after found
          obtain ⟨q, u, rfl, rfl, -⟩ := exists_of_readAggregate read
          rw [text] at found
          have plain := notMem_of_aggregate? found
          cases largest <;> cases largest' <;> cases same
          · exact absurd quote plain
          · exact absurd quote plain
        · obtain ⟨name, u, rfl, -, -⟩ := exists_of_readSingle whole (trimmed.trimChars_eq (.refl _)) read
          cases largest <;> cases same
      · rw [text, aggregate?_quoteChars quote largest (Test.notMem_display line)
          (test.isTrimmed_display)]
        dsimp only
        rw [readAggregate_display, exists_map_beq_iff, exists_readTest_iff]
        exact (and_iff_left quote).symm

end Prerequisite
end CharacterRules
