import CharacterRules.Proofs.Number.ReadBack
import CharacterRules.Proofs.Prerequisite.Equality
import CharacterRules.Proofs.Prerequisite.Reading
import CharacterRules.Proofs.Prerequisite.Written

/-!
Reading a test back from its text. A number is read back from its digits, and a text or a pattern from
its quotes, unless it has single quotes itself: these are shown behind a backslash, which means nothing
to the reader.
-/

namespace CharacterRules

/-- A text in single quotes, with the single quotes inside escaped. -/
def quoteChars (text : List Char) : List Char :=
  '\'' :: (Text.escapeChars (· == '\'') text ++ ['\''])

theorem toList_singleQuoted (s : String) : (singleQuoted s).toList = quoteChars s.toList := by
  simp [singleQuoted, quoteChars]

namespace Text

theorem escapeChars_cons (escaped : Char → Bool) (c : Char) (text : List Char) :
    escapeChars escaped (c :: text) =
      (if escaped c then ['\\', c] else [c]) ++ escapeChars escaped text :=
  List.flatMap_cons

theorem mem_of_mem_escapeChars {escaped : Char → Bool} {text : List Char} {c : Char}
    (h : c ∈ escapeChars escaped text) : c = '\\' ∨ c ∈ text := by
  obtain ⟨d, member, h⟩ := List.mem_flatMap.mp h
  split at h
  · rcases h with _ | ⟨_, _ | ⟨_, ⟨⟩⟩⟩
    · exact .inl rfl
    · exact .inr member
  · rw [List.mem_singleton.mp h]
    exact .inr member

theorem mem_escapeChars_of_mem {escaped : Char → Bool} {text : List Char} {c : Char}
    (h : c ∈ text) : c ∈ escapeChars escaped text := by
  refine List.mem_flatMap.mpr ⟨c, h, ?_⟩
  split <;> simp

theorem escapeChars_eq_self {escaped : Char → Bool} {text : List Char}
    (plain : ∀ c ∈ text, escaped c = false) : escapeChars escaped text = text := by
  induction text with
  | nil => rfl
  | cons c text ih =>
      obtain ⟨own, later⟩ := List.forall_mem_cons.mp plain
      rw [escapeChars_cons, ih later, own]
      rfl

theorem length_le_escapeChars (escaped : Char → Bool) (text : List Char) :
    text.length ≤ (escapeChars escaped text).length := by
  induction text with
  | nil => exact Nat.le_refl 0
  | cons c text ih =>
      rw [escapeChars_cons, List.length_append, List.length_cons]
      split <;> simp <;> omega

end Text

namespace Prerequisite

theorem length_lt_quoteChars (text : List Char) : text.length < (quoteChars text).length := by
  have longer := Text.length_le_escapeChars (· == '\'') text
  rw [quoteChars, List.length_cons, List.length_append, List.length_singleton]
  omega

/-- A text in single quotes is read as itself if it has no single quotes. -/
theorem stripQuotes_quoteChars_eq_iff {text : List Char} :
    stripQuotes (quoteChars text) = text ↔ '\'' ∉ text := by
  rw [quoteChars, stripQuotes_singleQuoted]
  by_cases quote : '\'' ∈ text
  · rw [if_pos (Text.mem_escapeChars_of_mem quote)]
    refine ⟨fun same => ?_, fun plain => absurd quote plain⟩
    exact absurd (congrArg List.length same) (length_lt_quoteChars text).ne'
  · have same : Text.escapeChars (· == '\'') text = text :=
      Text.escapeChars_eq_self fun c member => beq_eq_false_iff_ne.mpr fun h => quote (h ▸ member)
    rw [same, if_neg quote]
    exact ⟨fun _ => quote, fun _ => rfl⟩

theorem isTrimmed_quoteChars (text : List Char) : Text.IsTrimmed (quoteChars text) := by
  refine ⟨'\'', '\'', rfl, ?_, by decide, by decide⟩
  rw [quoteChars, ← List.cons_append, List.getLast?_append]
  rfl

end Prerequisite

namespace Test

open Prerequisite

/-- The operator that a test is shown with. -/
def comparator : Test → Comparator
  | .compare relation _ => .relation relation
  | .matches _ => .matches
  | .differs _ => .differs

/-- The text of a test behind its operator. -/
def valueText : Test → List Char
  | .compare _ (.number n) => n.display.toList
  | .compare _ (.text s) => quoteChars s.toList
  | .matches p => quoteChars p.source.toList
  | .differs p => quoteChars p.source.toList

/-- Whether a test is read back from its text: a number must equal itself, and what is in quotes must
have no single quotes. -/
def IsShown : Test → Prop
  | .compare _ (.number n) => n.isNaN = false
  | .compare _ (.text s) => '\'' ∉ s.toList
  | .matches p => '\'' ∉ p.source.toList
  | .differs p => '\'' ∉ p.source.toList

theorem toList_display (t : Test) :
    t.display.toList = t.comparator.symbol.toList ++ ' ' :: t.valueText := by
  cases t with
  | compare relation v =>
      cases v with
      | number n => simp [display, comparator, Comparator.symbol, valueText]
      | text s => simp [display, comparator, Comparator.symbol, valueText, toList_singleQuoted]
  | «matches» p => simp [display, comparator, Comparator.symbol, valueText, toList_singleQuoted]
  | differs p => simp [display, comparator, Comparator.symbol, valueText, toList_singleQuoted]

theorem valueText_cases (t : Test) :
    (∃ n : Number, t.valueText = n.display.toList) ∨ t.valueText = quoteChars t.quotedText := by
  cases t with
  | compare relation v =>
      cases v with
      | number n => exact .inl ⟨n, rfl⟩
      | text s => exact .inr rfl
  | «matches» p => exact .inr rfl
  | differs p => exact .inr rfl

theorem isTrimmed_valueText (t : Test) : Text.IsTrimmed t.valueText := by
  obtain ⟨n, value⟩ | value := t.valueText_cases
  · have plain := isPlain_display n
    rw [value]
    exact .of_visible plain.nonempty fun c member => isSpace_of_isPlain (plain.plain c member)
  · rw [value]
    exact isTrimmed_quoteChars t.quotedText

theorem trimChars_valueText (t : Test) : Text.trimChars (' ' :: t.valueText) = t.valueText :=
  t.isTrimmed_valueText.trimChars_eq ⟨[' '], [], by simp; decide, by simp, by simp⟩

theorem isTrimmed_display (t : Test) : Text.IsTrimmed t.display.toList := by
  have visible : ['=', '!', '<', '>', '~'].all (!Unicode.isSpace ·) = true := by decide
  have symbol : Text.IsTrimmed t.comparator.symbol.toList :=
    .of_visible (symbol_ne_nil _) fun c member => Bool.not_eq_true' _ ▸
      List.all_eq_true.mp visible c (mem_of_mem_symbol c member)
  rw [toList_display]
  exact symbol.append t.isTrimmed_valueText [' ']

theorem notMem_display {t : Test} (line : '\n' ∉ t.quotedText) : '\n' ∉ t.display.toList := by
  have value : '\n' ∉ t.valueText := by
    obtain ⟨n, value⟩ | value := t.valueText_cases
    · rw [value]
      exact fun member => absurd ((isPlain_display n).plain '\n' member) (by decide)
    · rw [value, quoteChars, List.mem_cons, List.mem_append, List.mem_singleton]
      rintro (first | inside | last)
      · cases first
      · obtain escape | inside := Text.mem_of_mem_escapeChars inside
        · cases escape
        · exact line inside
      · cases last
  rw [toList_display, List.mem_append, List.mem_cons]
  rintro (first | blank | last)
  · exact absurd (mem_of_mem_symbol '\n' first) (by decide)
  · cases blank
  · exact value last

end Test

namespace Prerequisite

theorem isWhole_quoteChars {text : List Char} (whole : IsWhole text) :
    IsWhole (quoteChars text) := by
  have escaped : IsWhole (Text.escapeChars (· == '\'') text) := by
    induction text with
    | nil => exact .nil
    | cons c text ih =>
        obtain ⟨first, later⟩ := List.isChain_cons.mp whole
        rw [Text.escapeChars_cons]
        split
        · rename_i quote
          rw [eq_of_beq quote]
          exact .cons (.cons (ih later) (by decide)) (by decide)
        · refine List.isChain_cons.mpr ⟨?_, ih later⟩
          rintro d next ⟨rfl, rfl⟩
          cases text with
          | nil => cases next
          | cons e text =>
              rw [Text.escapeChars_cons] at next
              split at next
              · cases next
              · exact first e rfl ⟨rfl, Option.some.inj next⟩
  exact .cons (escaped.append_cons .nil (by decide)) (by decide)

theorem isWhole_valueText {t : Test} (whole : IsWhole t.quotedText) : IsWhole t.valueText := by
  obtain ⟨n, value⟩ | value := t.valueText_cases
  · rw [value]
    exact isWhole_of_notMem fun bar => absurd ((isPlain_display n).plain '|' bar) (by decide)
  · rw [value]
    exact isWhole_quoteChars whole

/-- What ends in the value of a test has no quotes to strip, as those around the value do not belong to
the whole text. -/
theorem stripQuotes_append_valueText (front : List Char) (t : Test) :
    stripQuotes (front ++ ' ' :: t.valueText) = front ++ ' ' :: t.valueText := by
  have whole : ∀ {mark}, mark = '"' ∨ mark = '\'' →
      unquote? mark (front ++ ' ' :: t.valueText) = none := by
    intro mark quote
    rw [Option.eq_none_iff_forall_ne_some]
    intro inner h
    obtain ⟨same, plain⟩ := unquote?_eq_some_iff.mp h
    obtain ⟨n, value⟩ | value := t.valueText_cases
    · obtain ⟨c, last, shown⟩ := (isPlain_display n).exists_getLast?
      have ends := congrArg List.getLast? same
      rw [value, List.getLast?_append, List.getLast?_cons, last, ← List.cons_append,
        List.getLast?_append] at ends
      cases ends
      rcases quote with rfl | rfl <;> cases shown
    · rw [value, quoteChars, ← List.cons_append, ← List.cons_append, ← List.append_assoc,
        ← List.cons_append] at same
      obtain ⟨same, last⟩ := List.append_inj' same rfl
      cases last
      cases front with
      | nil => cases same
      | cons c front =>
          cases same
          exact plain (by simp)
  rw [stripQuotes, whole (.inl rfl), whole (.inr rfl)]
  rfl

theorem literal_display (n : Number) :
    literal (' ' :: n.display.toList) = .number (if n.isZero then 0 else n) := by
  have trimmed : Text.trimChars (' ' :: n.display.toList) = n.display.toList :=
    (Test.compare .eq (.number n)).trimChars_valueText
  have stripped : stripQuotes n.display.toList = n.display.toList := by
    obtain ⟨c, rest, same, plain⟩ := (isPlain_display n).exists_cons
    rw [same, stripQuotes_of_inert (isInert_of_isPlain plain)]
  simp only [literal, trimmed, stripped, ne_eq, not_true, if_false, String.ofList_toList,
    Number.ofText?_display]

theorem literal_quoteChars_eq_iff {s : String} :
    literal (' ' :: quoteChars s.toList) = .text s ↔ '\'' ∉ s.toList := by
  have trimmed : Text.trimChars (' ' :: quoteChars s.toList) = quoteChars s.toList :=
    (Test.compare .eq (.text s)).trimChars_valueText
  rw [← stripQuotes_quoteChars_eq_iff]
  constructor
  · intro h
    rw [← trimmed]
    exact (toList_of_literal h).symm
  · intro stripped
    simp only [literal, trimmed, stripped]
    rw [if_pos (length_lt_quoteChars s.toList).ne, String.ofList_toList]

theorem readTest_relation (r : Relation) (v : Value) :
    readTest (.relation r) (' ' :: (Test.compare r v).valueText) =
      .ok (.compare r (literal (' ' :: (Test.compare r v).valueText))) := by
  have nonempty : ¬(Test.compare r v).valueText.isEmpty = true := by
    rw [List.isEmpty_iff]
    exact (Test.isTrimmed_valueText _).ne_nil
  rw [readTest, Test.trimChars_valueText, if_neg nonempty]

theorem exists_readPattern_iff {p : Pattern} {f : Pattern → Test} (inj : ∀ {q}, f q = f p → q = p)
    (equal : ∀ {u}, (u == f p) = true ↔ u = f p) :
    (∃ u, (readPattern (stripQuotes (quoteChars p.source.toList))).map f = .ok u ∧
      (u == f p) = true) ↔ '\'' ∉ p.source.toList := by
  rw [← stripQuotes_quoteChars_eq_iff]
  constructor
  · rintro ⟨u, read, same⟩
    obtain ⟨q, compiled, rfl⟩ := map_eq_ok_iff.mp read
    obtain rfl := inj (equal.mp same)
    exact (readPattern_eq_ok_iff.mp compiled).symm
  · intro stripped
    exact ⟨f p, map_eq_ok_iff.mpr ⟨p, readPattern_eq_ok_iff.mpr stripped.symm, rfl⟩,
      equal.mpr rfl⟩

theorem zero_or_self_beq_iff {n : Number} :
    ((if n.isZero then 0 else n) == n) = true ↔ n.isNaN = false := by
  split
  · rename_i zero
    obtain ⟨sign, rfl⟩ := Number.eq_signedZero_of_isZero zero
    exact ⟨fun _ => rfl, fun _ => Number.beq_iff.mpr (.inr ⟨rfl, rfl⟩)⟩
  · exact Number.beq_self_iff

/-- A test is read back from its text as an equal one if it is one that is shown as it is. -/
theorem exists_readTest_iff (t : Test) :
    (∃ u, readTest t.comparator (' ' :: t.valueText) = .ok u ∧ (u == t) = true) ↔ t.IsShown := by
  cases t with
  | compare r v =>
      have value : (∃ u, readTest (Test.compare r v).comparator
          (' ' :: (Test.compare r v).valueText) = .ok u ∧ (u == Test.compare r v) = true) ↔
          (literal (' ' :: (Test.compare r v).valueText) == v) = true := by
        rw [Test.comparator, readTest_relation]
        constructor
        · rintro ⟨_, ⟨⟩, equal⟩
          obtain ⟨w, same, equal⟩ := Test.beq_compare_iff.mp equal
          cases same
          exact equal
        · intro equal
          exact ⟨_, rfl, Test.beq_compare_iff.mpr ⟨_, rfl, equal⟩⟩
      rw [value]
      cases v with
      | number n =>
          rw [Test.valueText, literal_display]
          exact zero_or_self_beq_iff
      | text s =>
          rw [Test.valueText, Value.beq_text_iff]
          exact literal_quoteChars_eq_iff
  | «matches» p =>
      rw [Test.comparator, readTest, Test.trimChars_valueText]
      exact exists_readPattern_iff (fun same => Test.matches.inj same) Test.beq_matches_iff
  | differs p =>
      rw [Test.comparator, readTest, Test.trimChars_valueText]
      exact exists_readPattern_iff (fun same => Test.differs.inj same) Test.beq_differs_iff

end Prerequisite
end CharacterRules
