import CharacterRules.Prerequisite.Parser
import CharacterRules.Proofs.Number.Text
import CharacterRules.Proofs.Text.Trim
import CharacterRules.Proofs.Unicode.Case

/-!
Requirements made of numbers. The text of one attribute's lower bound is read as that one comparison,
whatever the number is: nothing in it separates clauses or begins another operator.
-/

namespace CharacterRules.Prerequisite

/-- Whether a character neither separates nor nests the parts of a requirement. -/
def isInert (c : Char) : Bool := !List.contains [',', '\'', '"', '(', ')', '[', ']', '|'] c

/-- Whether a character can stand anywhere in an attribute or a number of a requirement. -/
def isPlain (c : Char) : Bool :=
  isInert c && !Unicode.isSpace c && !List.contains ['=', '!', '<', '>', 'S', 'M'] c

/-- A text that could be an attribute or a number. -/
structure IsPlain (text : List Char) : Prop where
  nonempty : text ≠ []
  plain : ∀ c ∈ text, isPlain c = true

theorem step_of_isInert {c : Char} (inert : isInert c = true) :
    c ≠ ',' ∧ Nesting.step {} c = {} := by
  simp only [isInert, List.contains_eq_mem, List.mem_cons, List.not_mem_nil, or_false,
    Bool.not_eq_true', decide_eq_false_iff_not, not_or] at inert
  exact ⟨inert.1, by simp [Nesting.step, inert]⟩

theorem splitCommas_of_inert {text : List Char} (inert : ∀ c ∈ text, isInert c = true) :
    splitCommas {} text = [text] := by
  induction text with
  | nil => rfl
  | cons c rest ih =>
      obtain ⟨other, stays⟩ := step_of_isInert (inert c List.mem_cons_self)
      rw [splitCommas, beq_eq_false_iff_ne.mpr other, Bool.false_and, if_neg Bool.false_ne_true,
        stays, ih fun d hd => inert d (List.mem_cons_of_mem c hd)]

theorem splitBars_of_inert {text : List Char} (inert : ∀ c ∈ text, isInert c = true) :
    splitBars text = [text] := by
  fun_induction splitBars text with
  | case1 => rfl
  | case2 => rfl
  | case3 c d rest bars ih =>
      have own := inert c List.mem_cons_self
      rw [eq_of_beq (Bool.and_eq_true_iff.mp bars).1] at own
      exact absurd own (by decide)
  | case4 c d rest single part parts split ih =>
      have later := ih fun e he => inert e (List.mem_cons_of_mem c he)
      rw [split] at later
      cases later
      rfl
  | case5 c d rest single split ih =>
      have later := ih fun e he => inert e (List.mem_cons_of_mem c he)
      rw [split] at later
      cases later

theorem unquote?_of_ne {mark c : Char} (h : c ≠ mark) (rest : List Char) :
    unquote? mark (c :: rest) = none := by
  rw [unquote?]
  split
  · rw [beq_eq_false_iff_ne.mpr h, Bool.false_and, Bool.false_and, if_neg Bool.false_ne_true]
  · rfl

theorem stripQuotes_of_inert {c : Char} (inert : isInert c = true) (rest : List Char) :
    stripQuotes (c :: rest) = c :: rest := by
  have double : c ≠ '"' := by
    rintro rfl
    exact absurd inert (by decide)
  have single : c ≠ '\'' := by
    rintro rfl
    exact absurd inert (by decide)
  rw [stripQuotes, unquote?_of_ne double, unquote?_of_ne single]
  rfl

theorem operatorAt?_of_plain {c : Char} (plain : isPlain c = true) (rest : List Char) :
    operatorAt? (c :: rest) = none := by
  unfold operatorAt?
  split
  all_goals first
    | rfl
    | rename_i begins
      cases begins
      exact absurd plain (by decide)

theorem findOperator?_of_plain {key : List Char} (plain : ∀ c ∈ key, isPlain c = true)
    (rest : List Char) :
    findOperator? (key ++ ' ' :: '>' :: '=' :: rest) =
      some (key ++ [' '], .relation .ge, rest) := by
  induction key with
  | nil => rfl
  | cons c key ih =>
      rw [List.cons_append, findOperator?, operatorAt?_of_plain (plain c List.mem_cons_self),
        ih fun d hd => plain d (List.mem_cons_of_mem c hd)]
      rfl

theorem aggregate?_of_plain {c : Char} (plain : isPlain c = true) (rest : List Char) :
    aggregate? (c :: rest) = none := by
  unfold aggregate?
  split
  · rename_i begins
    cases begins
    exact absurd plain (by decide)
  · rename_i begins
    cases begins
    exact absurd plain (by decide)
  · rfl

theorem isInert_of_isPlain {c : Char} (h : isPlain c = true) : isInert c = true :=
  (Bool.and_eq_true_iff.mp (Bool.and_eq_true_iff.mp h).1).1

theorem isSpace_of_isPlain {c : Char} (h : isPlain c = true) : Unicode.isSpace c = false :=
  Bool.not_eq_true' _ ▸ (Bool.and_eq_true_iff.mp (Bool.and_eq_true_iff.mp h).1).2

theorem isPlain_of_isShown {c : Char} (h : Number.isShown c = true) : isPlain c = true := by
  obtain digit | mark := Bool.or_eq_true_iff.mp h
  · exact Unicode.of_isDigit (P := fun c => isPlain c = true) (by decide) digit
  · have checked : "-.Nainf".toList.all isPlain = true := by decide
    exact List.all_eq_true.mp checked c (List.contains_iff_mem.mp mark)

theorem IsPlain.of_all {text : List Char} (nonempty : text ≠ []) (h : text.all isPlain = true) :
    IsPlain text :=
  ⟨nonempty, List.all_eq_true.mp h⟩

theorem isPlain_display (x : Number) : IsPlain x.display.toList :=
  ⟨x.isShown_display.1, fun c hc => isPlain_of_isShown (x.isShown_display.2 c hc)⟩

namespace IsPlain

variable {text : List Char} (h : IsPlain text)

include h

theorem exists_cons : ∃ c rest, text = c :: rest ∧ isPlain c = true := by
  obtain ⟨c, rest, rfl⟩ := List.exists_cons_of_ne_nil h.nonempty
  exact ⟨c, rest, rfl, h.plain c List.mem_cons_self⟩

theorem exists_getLast? : ∃ c, text.getLast? = some c ∧ isPlain c = true :=
  ⟨text.getLast h.nonempty, List.getLast?_eq_some_getLast h.nonempty,
    h.plain _ (List.getLast_mem h.nonempty)⟩

theorem trimChars_between (front back : List Char)
    (before : ∀ c ∈ front, Unicode.isSpace c = true)
    (behind : ∀ c ∈ back, Unicode.isSpace c = true) :
    Text.trimChars (front ++ (text ++ back)) = text := by
  obtain ⟨d, last, visible'⟩ := h.exists_getLast?
  obtain ⟨c, rest, rfl, visible⟩ := h.exists_cons
  exact Text.trimChars_between before behind rfl last (isSpace_of_isPlain visible)
    (isSpace_of_isPlain visible')

theorem isEmpty : text.isEmpty = false := by
  obtain ⟨c, rest, rfl, -⟩ := h.exists_cons
  rfl

end IsPlain

/-- The text of an attribute's lower bound. -/
def boundText (key bound : List Char) : List Char := key ++ ' ' :: '>' :: '=' :: ' ' :: bound

/-- The comparison of an attribute with its lower bound. -/
def boundComparison (key bound : List Char) : Comparison :=
  ⟨.key (String.ofList key), .compare .ge (literal bound)⟩

section Bound

variable {key bound : List Char} (hkey : IsPlain key) (hbound : IsPlain bound)

include hkey hbound

theorem isInert_of_mem_boundText {c : Char} (h : c ∈ boundText key bound) : isInert c = true := by
  rcases List.mem_append.mp h with first | h
  · exact isInert_of_isPlain (hkey.plain c first)
  · rcases h with _ | ⟨_, _ | ⟨_, _ | ⟨_, _ | ⟨_, last⟩⟩⟩⟩
    · decide
    · decide
    · decide
    · decide
    · exact isInert_of_isPlain (hbound.plain c last)

theorem trimChars_boundText : Text.trimChars (boundText key bound) = boundText key bound := by
  obtain ⟨c, rest, rfl, visible⟩ := hkey.exists_cons
  obtain ⟨d, last, visible'⟩ := hbound.exists_getLast?
  have ends : (boundText (c :: rest) bound).getLast? = some d := by
    rw [boundText, List.getLast?_append,
      show ' ' :: '>' :: '=' :: ' ' :: bound = [' ', '>', '=', ' '] ++ bound from rfl,
      List.getLast?_append, last]
    rfl
  exact Text.trimChars_eq_self rfl ends (isSpace_of_isPlain visible) (isSpace_of_isPlain visible')

omit hkey in
theorem readTest_bound : readTest (.relation .ge) (' ' :: bound) =
    .ok (.compare .ge (literal bound)) := by
  have trimmed : Text.trimChars (' ' :: bound) = bound := by
    have between := hbound.trimChars_between [' '] [] (List.forall_mem_singleton.mpr rfl)
      (List.forall_mem_nil _)
    rwa [List.append_nil, List.singleton_append] at between
  have whole : Text.trimChars bound = bound := by
    have between := hbound.trimChars_between [] [] (List.forall_mem_nil _) (List.forall_mem_nil _)
    rwa [List.append_nil, List.nil_append] at between
  rw [readTest, trimmed, hbound.isEmpty, if_neg Bool.false_ne_true, literal, literal, trimmed, whole]

omit hbound in
theorem isEmpty_boundText : (boundText key bound).isEmpty = false := by
  obtain ⟨c, rest, rfl, -⟩ := hkey.exists_cons
  rfl

theorem readComparison_boundText :
    readComparison (boundText key bound) = .ok (boundComparison key bound) := by
  have single : readSingle (boundText key bound) = .ok (boundComparison key bound) := by
    have trimmed : Text.trimChars (key ++ [' ']) = key :=
      hkey.trimChars_between [] [' '] (List.forall_mem_nil _) (List.forall_mem_singleton.mpr rfl)
    unfold readSingle
    rw [boundText, findOperator?_of_plain hkey.plain]
    dsimp only
    rw [trimmed, hkey.isEmpty, if_neg Bool.false_ne_true, readTest_bound hbound]
    rfl
  have alone : aggregate? (boundText key bound) = none := by
    obtain ⟨c, rest, rfl, plain⟩ := hkey.exists_cons
    exact aggregate?_of_plain plain _
  unfold readComparison
  rw [trimChars_boundText hkey hbound]
  dsimp only
  rw [isEmpty_boundText hkey, if_neg Bool.false_ne_true, alone]
  dsimp only
  rw [single]
  rfl

/-- The text of an attribute's lower bound is read as that one comparison. -/
theorem ofTexts_boundText :
    ofTexts [String.ofList (boundText key bound)] = .ok (single (boundComparison key bound)) := by
  have inert : ∀ c ∈ boundText key bound, isInert c = true :=
    fun c hc => isInert_of_mem_boundText hkey hbound hc
  have stripped : stripQuotes (boundText key bound) = boundText key bound := by
    obtain ⟨c, rest, rfl, plain⟩ := hkey.exists_cons
    exact stripQuotes_of_inert (isInert_of_isPlain plain) _
  have parts : splitTopLevel (String.ofList (boundText key bound)) =
      [String.ofList (boundText key bound)] := by
    rw [splitTopLevel, String.toList_ofList, splitCommas_of_inert inert]
    simp [trimChars_boundText hkey hbound, stripped, isEmpty_boundText hkey]
  have clause : readClause (String.ofList (boundText key bound)) =
      .ok ⟨[boundComparison key bound]⟩ := by
    rw [readClause, String.toList_ofList, splitBars_of_inert inert, List.mapM_cons, List.mapM_nil,
      readComparison_boundText hkey hbound]
    rfl
  rw [ofTexts, List.flatMap_cons, parts, List.flatMap_nil, List.append_nil, List.mapM_cons,
    List.mapM_nil, clause]
  rfl

end Bound

end CharacterRules.Prerequisite
