import CharacterRules.Proofs.Outcome
import CharacterRules.Proofs.Prerequisite.Scan
import Mathlib.Data.List.TakeWhile

/-!
What requirements that have been read are made of. The attribute of a comparison has no operator and
nothing to trim, no part of a comparison has two bars in a row, and no clause equals an earlier one.
-/

namespace CharacterRules

theorem Pattern.ofText?_eq_some_iff {source : String} {p : Pattern} :
    Pattern.ofText? source = some p ↔ p.source = source := by
  rw [ofText?]
  split
  · rename_i regex compiled
    rw [Option.some.injEq]
    exact ⟨fun same => same ▸ rfl, fun same => ext_source same.symm⟩
  · rename_i none
    refine ⟨nofun, ?_⟩
    rintro rfl
    cases none.symm.trans p.compiled

/-- The operand of many attributes: the largest or the sum of those that match. -/
def Operand.aggregate (largest : Bool) (p : Pattern) : Operand :=
  if largest then .max p else .sum p

/-- The text that a test shows in quotes. -/
def Test.quotedText : Test → List Char
  | .compare _ (.number _) => []
  | .compare _ (.text s) => s.toList
  | .matches p => p.source.toList
  | .differs p => p.source.toList

namespace Prerequisite

section Aggregates

/-- The word in front of a pattern for many attributes. -/
def aggregateWord : Bool → List Char
  | false => ['S', 'u', 'm']
  | true => ['M', 'a', 'x']

/-- The quoted pattern behind the word for many attributes, and the text behind it. -/
def aggregateBehind? (largest : Bool) (rest : List Char) : Option (Bool × List Char × List Char) :=
  do
    let (mark, rest) ← match rest, rest.dropWhile Unicode.isSpace with
      | c :: _, mark :: more =>
        if Unicode.isSpace c && (mark == '\'' || mark == '"') then some (mark, more) else none
      | _, _ => none
    match rest.dropWhile (· != mark) with
    | [] => none
    | _ :: after =>
      let after := after.dropWhile Unicode.isSpace
      if after.contains '\n' then none else some (largest, rest.takeWhile (· != mark), after)

/-- What is found for many attributes is what is found behind the word. -/
theorem aggregate?_eq_some_iff {text : List Char} {found : Bool × List Char × List Char} :
    aggregate? text = some found ↔
      ∃ largest rest, text = aggregateWord largest ++ rest ∧
        aggregateBehind? largest rest = some found := by
  unfold aggregate?
  split
  · rename_i rest
    constructor
    · exact fun h => ⟨false, rest, rfl, h⟩
    · rintro ⟨largest, rest, same, h⟩
      cases largest <;> cases same
      exact h
  · rename_i rest
    constructor
    · exact fun h => ⟨true, rest, rfl, h⟩
    · rintro ⟨largest, rest, same, h⟩
      cases largest <;> cases same
      exact h
  · rename_i sum max
    constructor
    · intro h
      exact absurd h (Option.some_ne_none found).symm
    · rintro ⟨largest, rest, same, h⟩
      cases largest
      · exact (sum rest same).elim
      · exact (max rest same).elim

theorem aggregateBehind?_eq_some_iff {largest : Bool} {rest : List Char}
    {found : Bool × List Char × List Char} : aggregateBehind? largest rest = some found ↔
      ∃ blank mark source back, rest = blank ++ mark :: (source ++ mark :: back) ∧
        blank ≠ [] ∧ (∀ c ∈ blank, Unicode.isSpace c = true) ∧ (mark = '\'' ∨ mark = '"') ∧
        mark ∉ source ∧ '\n' ∉ back.dropWhile Unicode.isSpace ∧
        found = (largest, source, back.dropWhile Unicode.isSpace) := by
  constructor
  · intro h
    unfold aggregateBehind? at h
    simp only [bind, Option.bind] at h
    split at h
    · rename_i c tail mark more start
      rw [Option.ite_none_right_eq_some, Bool.and_eq_true, Bool.or_eq_true, beq_iff_eq,
        beq_iff_eq] at h
      obtain ⟨⟨space, quote⟩, h⟩ := h
      split at h
      · cases h
      · rename_i d back closes
        rw [Option.ite_none_left_eq_some, List.contains_iff_mem] at h
        obtain ⟨line, same⟩ := h
        -- the inside ends at the first further mark, so that is what closes it
        have stop := List.head?_dropWhile_not (· != mark) more
        rw [closes] at stop
        obtain rfl : d = mark := by simpa using stop
        refine ⟨(c :: tail).takeWhile Unicode.isSpace, d, more.takeWhile (· != d), back, ?_, ?_, ?_,
          quote, ?_, line, (Option.some.inj same).symm⟩
        · rw [← closes, List.takeWhile_append_dropWhile, ← start, List.takeWhile_append_dropWhile]
        · rw [List.takeWhile_cons_of_pos space]
          exact List.cons_ne_nil _ _
        · exact fun e member => List.mem_takeWhile_imp member
        · exact fun member => absurd (List.mem_takeWhile_imp member) (by simp)
    · exact absurd h (Option.some_ne_none found).symm
  · rintro ⟨blank, mark, source, back, rfl, nonempty, spaces, quote, plain, line, rfl⟩
    obtain ⟨c, blank, rfl⟩ := List.exists_cons_of_ne_nil nonempty
    have visible : Unicode.isSpace mark = false := by rcases quote with rfl | rfl <;> decide
    have start : (c :: blank ++ mark :: (source ++ mark :: back)).dropWhile Unicode.isSpace =
        mark :: (source ++ mark :: back) := Text.dropWhile_append_of_visible spaces rfl visible
    have inside : ∀ d ∈ source, (d != mark) = true := fun d member =>
      bne_iff_ne.mpr fun same => plain (same ▸ member)
    have closes : (source ++ mark :: back).dropWhile (· != mark) = mark :: back := by
      rw [List.dropWhile_append_of_pos inside, List.dropWhile_cons_of_neg (by simp)]
    have taken : (source ++ mark :: back).takeWhile (· != mark) = source :=
      Text.takeWhile_append_of_stop inside (by simp)
    have opens : (Unicode.isSpace c && (mark == '\'' || mark == '"')) = true := by
      simpa [spaces c List.mem_cons_self] using quote
    have lines : ¬((back.dropWhile Unicode.isSpace).contains '\n' = true) :=
      List.contains_iff_mem.not.mpr line
    unfold aggregateBehind?
    simp only [bind, Option.bind]
    rw [start]
    simp only [List.cons_append]
    rw [if_pos opens, closes]
    dsimp only
    rw [if_neg lines, taken]

theorem isInfix_of_aggregate? {text source after : List Char} {largest : Bool}
    (h : aggregate? text = some (largest, source, after)) :
    source <:+: text ∧ after <:+: text ∧ '\n' ∉ after := by
  obtain ⟨_, rest, rfl, found⟩ := aggregate?_eq_some_iff.mp h
  obtain ⟨blank, mark, source, back, rfl, -, -, -, -, line, same⟩ :=
    aggregateBehind?_eq_some_iff.mp found
  cases same
  refine ⟨⟨aggregateWord largest ++ (blank ++ [mark]), mark :: back, by simp⟩, ?_, line⟩
  refine (List.dropWhile_suffix _).isInfix.trans ?_
  exact ⟨aggregateWord largest ++ (blank ++ mark :: (source ++ [mark])), [], by simp⟩

end Aggregates

/-- A text that can stand for an attribute in front of an operator. -/
structure IsKey (text : List Char) : Prop where
  trimmed : Text.IsTrimmed text
  plain : findOperator? text = none
  whole : IsWhole text

/-- The comparisons that can have been read. -/
inductive IsWritten : Comparison → Prop
  | single {name : String} {test : Test} (key : IsKey name.toList)
      (whole : IsWhole test.quotedText) : IsWritten ⟨.key name, test⟩
  | aggregate (largest : Bool) {p : Pattern} {test : Test} (source : IsWhole p.source.toList)
      (whole : IsWhole test.quotedText) (line : '\n' ∉ test.quotedText) :
      IsWritten ⟨.aggregate largest p, test⟩

theorem readPattern_eq_ok_iff {source : List Char} {p : Pattern} :
    readPattern source = .ok p ↔ p.source.toList = source := by
  have compiles : Pattern.ofText? (String.ofList source) = some p ↔ p.source.toList = source := by
    rw [Pattern.ofText?_eq_some_iff, ← String.toList_inj, String.toList_ofList]
  rw [← compiles, readPattern]
  split
  · rename_i q found
    rw [found, Except.ok.injEq, Option.some.injEq]
  · rename_i none
    rw [none]
    exact ⟨nofun, nofun⟩

/-- A value that is a text is what was written, without the quotes around it. -/
theorem toList_of_literal {text : List Char} {s : String} (h : literal text = .text s) :
    s.toList = stripQuotes (Text.trimChars text) := by
  simp only [literal] at h
  split at h
  · rw [← Value.text.inj h, String.toList_ofList]
  · rename_i same
    split at h
    · cases h
    · rw [← Value.text.inj h, String.toList_ofList]
      exact ((stripQuotes_isInfix _).eq_of_length (not_not.mp same)).symm

/-- What a test shows in quotes stands in the text that it has been read from. -/
theorem quotedText_isInfix_of_readTest {op : Comparator} {after : List Char} {test : Test}
    (h : readTest op after = .ok test) : test.quotedText <:+: after := by
  have inside : stripQuotes (Text.trimChars after) <:+: after :=
    (stripQuotes_isInfix _).trans (Text.trimChars_isInfix after)
  cases op with
  | «matches» =>
      obtain ⟨p, read, rfl⟩ := map_eq_ok_iff.mp h
      rwa [← readPattern_eq_ok_iff.mp read] at inside
  | differs =>
      obtain ⟨p, read, rfl⟩ := map_eq_ok_iff.mp h
      rwa [← readPattern_eq_ok_iff.mp read] at inside
  | relation r =>
      rw [readTest] at h
      split at h
      · cases h
      · obtain rfl := Except.ok.inj h
        cases value : literal after with
        | number n => exact List.nil_infix
        | text s =>
            rw [← toList_of_literal value] at inside
            exact inside

theorem isKey_trimChars {text before : List Char} (whole : IsWhole text) (inside : before <:+: text)
    (plain : findOperator? before = none) (nonempty : Text.trimChars before ≠ []) :
    IsKey (Text.trimChars before) :=
  have trimmed := Text.trimChars_isInfix before
  ⟨Text.isTrimmed_trimChars nonempty, findOperator?_of_isInfix plain trimmed,
    whole.of_isInfix (trimmed.trans inside)⟩

theorem exists_of_readSingle {text : List Char} {c : Comparison} (whole : IsWhole text)
    (trimmed : Text.trimChars text = text) (h : readSingle text = .ok c) :
    ∃ name test, c = ⟨.key name, test⟩ ∧ IsKey name.toList ∧ test.quotedText <:+: text := by
  unfold readSingle at h
  split at h
  · rename_i before op after found
    obtain ⟨rfl, plain⟩ := eq_of_findOperator? found
    dsimp only at h
    split at h
    · cases h
    · rename_i nonempty
      obtain ⟨test, read, rfl⟩ := map_eq_ok_iff.mp h
      refine ⟨_, test, rfl, ?_, ?_⟩
      · rw [String.toList_ofList]
        exact isKey_trimChars whole ⟨[], _, rfl⟩ plain (by simpa using nonempty)
      · refine (quotedText_isInfix_of_readTest read).trans ⟨before ++ op.symbol.toList, [], ?_⟩
        rw [List.append_nil, List.append_assoc]
  · rename_i plain
    -- without an operator the key is the whole text, or what follows an exclamation mark
    have key : ∀ {before : List Char} {test : Test}, before <:+: text → test.quotedText = [] →
        (if (Text.trimChars before).isEmpty then Except.error Fault.missingAttribute
          else .ok ⟨.key (String.ofList (Text.trimChars before)), test⟩) = .ok c →
        ∃ name test, c = ⟨.key name, test⟩ ∧ IsKey name.toList ∧ test.quotedText <:+: text := by
      intro before test inside empty h
      split at h
      · cases h
      · rename_i nonempty
        refine ⟨_, test, (Except.ok.inj h).symm, ?_, empty ▸ List.nil_infix⟩
        rw [String.toList_ofList]
        exact isKey_trimChars whole inside (findOperator?_of_isInfix plain inside)
          (by simpa using nonempty)
    split at h
    rename_i test before same
    split at same
    · cases same
      exact key ⟨['!'], [], by simp⟩ rfl h
    · cases same
      rw [← trimmed] at h
      exact key List.infix_rfl rfl h

theorem exists_of_readAggregate {largest : Bool} {source after : List Char} {c : Comparison}
    (h : readAggregate largest source after = .ok c) : ∃ p test,
      c = ⟨.aggregate largest p, test⟩ ∧ p.source.toList = source ∧ test.quotedText <:+: after := by
  rw [readAggregate] at h
  obtain ⟨p, compiled, h⟩ := exists_of_bind_eq_ok h
  have source := readPattern_eq_ok_iff.mp compiled
  dsimp only at h
  split at h
  · rename_i op value found
    obtain ⟨test, read, same⟩ := exists_of_bind_eq_ok h
    obtain ⟨whole, -⟩ := eq_of_findOperator? found
    refine ⟨p, test, (Except.ok.inj same).symm, source, ?_⟩
    refine (quotedText_isInfix_of_readTest read).trans (.trans ?_ (Text.trimChars_isInfix after))
    exact ⟨op.symbol.toList, [], by rw [whole, List.append_nil, List.nil_append]⟩
  · cases h
  · split at h
    · exact ⟨p, isNonzero, (Except.ok.inj h).symm, source, List.nil_infix⟩
    · cases h

theorem isWritten_of_readComparison {text : List Char} {c : Comparison} (whole : IsWhole text)
    (h : readComparison text = .ok c) : IsWritten c := by
  have inside := whole.of_isInfix (Text.trimChars_isInfix text)
  rw [readComparison, mapError_eq_ok_iff] at h
  split at h
  · cases h
  · rename_i nonempty
    split at h
    · rename_i largest source after found
      obtain ⟨p, test, rfl, rfl, quoted⟩ := exists_of_readAggregate h
      obtain ⟨source, behind, line⟩ := isInfix_of_aggregate? found
      exact .aggregate largest (inside.of_isInfix source)
        (inside.of_isInfix (quoted.trans behind)) fun member => line (quoted.subset member)
    · have trimmed : Text.IsTrimmed (Text.trimChars text) :=
        Text.isTrimmed_trimChars (by simpa using nonempty)
      obtain ⟨name, test, rfl, key, quoted⟩ :=
        exists_of_readSingle inside (trimmed.trimChars_eq (.refl _)) h
      exact .single key (inside.of_isInfix quoted)

theorem isWritten_of_readClause {text : String} {clause : Clause}
    (h : readClause text = .ok clause) :
    clause.alternatives ≠ [] ∧ ∀ c ∈ clause.alternatives, IsWritten c := by
  obtain ⟨alternatives, read, rfl⟩ := map_eq_ok_iff.mp h
  refine ⟨?_, fun c member => ?_⟩
  · rintro rfl
    exact splitBars_ne_nil text.toList (List.forall₂_nil_right_iff.mp (mapM_eq_ok_iff.mp read))
  · obtain ⟨part, inside, read⟩ := exists_of_mem_forall₂ (mapM_eq_ok_iff.mp read) member
    exact isWritten_of_readComparison (isWhole_of_mem_splitBars inside) read

section Clauses

theorem addClauses_cons (known : List Clause) (c : Clause) (more : List Clause) :
    addClauses known (c :: more) =
      addClauses (if known.contains c then known else known ++ [c]) more :=
  rfl

theorem addClauses_sublist (known more : List Clause) :
    (addClauses known more).Sublist (known ++ more) := by
  induction more generalizing known with
  | nil =>
      rw [List.append_nil]
      exact List.Sublist.refl known
  | cons c more ih =>
      rw [addClauses_cons]
      split
      · exact (ih known).trans (List.Sublist.append_left (List.sublist_cons_self c more) known)
      · have kept := ih (known ++ [c])
        rwa [List.append_assoc, List.singleton_append] at kept

theorem pairwise_addClauses {known : List Clause}
    (apart : known.Pairwise fun a b => (b == a) = false) (more : List Clause) :
    (addClauses known more).Pairwise fun a b => (b == a) = false := by
  induction more generalizing known with
  | nil => exact apart
  | cons c more ih =>
      rw [addClauses_cons]
      split
      · exact ih apart
      · rename_i new
        rw [← List.any_beq, List.any_eq_true, not_exists] at new
        refine ih (List.pairwise_append.mpr ⟨apart, List.pairwise_singleton _ c, ?_⟩)
        intro a member b other
        rw [List.mem_singleton.mp other]
        exact Bool.eq_false_iff.mpr fun same => new a ⟨member, same⟩

/-- Clauses that do not equal earlier ones are all kept. -/
theorem addClauses_of_pairwise {known more : List Clause}
    (apart : (known ++ more).Pairwise fun a b => (b == a) = false) :
    addClauses known more = known ++ more := by
  induction more generalizing known with
  | nil => exact (List.append_nil known).symm
  | cons c more ih =>
      have new : ¬(known.contains c = true) := by
        rw [← List.any_beq, List.any_eq_true]
        rintro ⟨a, member, same⟩
        have other := (List.pairwise_append.mp apart).2.2 a member c List.mem_cons_self
        exact Bool.false_ne_true (other.symm.trans same)
      rw [List.append_cons] at apart ⊢
      rw [addClauses_cons, if_neg new, ih apart]

end Clauses

/-- What requirements that have been read are made of. -/
theorem isWritten_of_ofTexts {items : List String} {p : Prerequisite} (h : ofTexts items = .ok p) :
    (∀ clause ∈ p.clauses, clause.alternatives ≠ [] ∧ ∀ c ∈ clause.alternatives, IsWritten c) ∧
      p.clauses.Pairwise fun a b => (b == a) = false := by
  obtain ⟨clauses, read, same⟩ := exists_of_bind_eq_ok h
  obtain rfl := Except.ok.inj same
  refine ⟨fun clause member => ?_, pairwise_addClauses .nil clauses⟩
  obtain ⟨text, -, read⟩ := exists_of_mem_forall₂ (mapM_eq_ok_iff.mp read) ((addClauses_sublist [] clauses).subset member)
  exact isWritten_of_readClause read

end Prerequisite
end CharacterRules
