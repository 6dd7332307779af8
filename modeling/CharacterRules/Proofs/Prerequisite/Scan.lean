import CharacterRules.Prerequisite.Parser
import CharacterRules.Proofs.Text.Trim
import Mathlib.Data.List.Chain

/-!
The scans that divide the text of a requirement: at its commas, at its bars, at the first operator of a
comparison and at the quotes around a value. Each finds the dividing text that was put between parts, if
the parts themselves do not have it.
-/

namespace CharacterRules.Prerequisite

section Bars

/-- A text without two bars in a row. -/
def IsWhole (text : List Char) : Prop := text.IsChain fun c d => ¬(c = '|' ∧ d = '|')

theorem IsWhole.of_isInfix {text part : List Char} (h : IsWhole text) (inside : part <:+: text) :
    IsWhole part :=
  List.IsChain.infix h inside

theorem IsWhole.append_cons {front back : List Char} (before : IsWhole front)
    (behind : IsWhole back) {c : Char} (other : c ≠ '|') : IsWhole (front ++ c :: back) := by
  refine List.isChain_append.mpr ⟨before, List.isChain_cons.mpr ⟨?_, behind⟩, ?_⟩
  · rintro d - ⟨rfl, -⟩
    exact other rfl
  · rintro b - d same ⟨-, rfl⟩
    exact other (Option.some.inj same)

theorem IsWhole.cons {text : List Char} (h : IsWhole text) {c : Char} (other : c ≠ '|') :
    IsWhole (c :: text) :=
  .append_cons .nil h other

theorem isWhole_of_notMem {text : List Char} (h : '|' ∉ text) : IsWhole text := by
  induction text with
  | nil => exact .nil
  | cons c text ih =>
      obtain ⟨own, later⟩ := not_or.mp (List.mem_cons.not.mp h)
      refine List.isChain_cons.mpr ⟨?_, ih later⟩
      rintro d - ⟨rfl, -⟩
      exact own rfl

/-- Every part between bars is without two bars in a row. The first one begins like the text. -/
theorem exists_splitBars (text : List Char) : ∃ part parts, splitBars text = part :: parts ∧
    (∀ c ∈ part.head?, text.head? = some c) ∧ ∀ part ∈ splitBars text, IsWhole part := by
  fun_induction splitBars text with
  | case1 => exact ⟨[], [], rfl, nofun, List.forall_mem_singleton.mpr .nil⟩
  | case2 c => exact ⟨[c], [], rfl, fun _ h => h, List.forall_mem_singleton.mpr (.singleton c)⟩
  | case3 c d rest bars ih =>
      obtain ⟨_, _, -, -, whole⟩ := ih
      exact ⟨[], _, rfl, nofun, List.forall_mem_cons.mpr ⟨.nil, whole⟩⟩
  | case4 c d rest single part parts split ih =>
      obtain ⟨_, _, same, first, whole⟩ := ih
      rw [split] at same whole
      cases same
      obtain ⟨own, others⟩ := List.forall_mem_cons.mp whole
      refine ⟨c :: part, parts, rfl, fun _ h => h, List.forall_mem_cons.mpr ⟨?_, others⟩⟩
      refine List.isChain_cons.mpr ⟨?_, own⟩
      rintro e next ⟨rfl, rfl⟩
      exact single (by rw [Option.some.inj (first '|' next)]; rfl)
  | case5 c d rest single split ih =>
      obtain ⟨_, _, same, -⟩ := ih
      rw [split] at same
      cases same

theorem splitBars_ne_nil (text : List Char) : splitBars text ≠ [] := by
  obtain ⟨part, parts, split, -⟩ := exists_splitBars text
  rw [split]
  exact List.cons_ne_nil part parts

theorem isWhole_of_mem_splitBars {text part : List Char} (h : part ∈ splitBars text) :
    IsWhole part := by
  obtain ⟨_, _, -, -, whole⟩ := exists_splitBars text
  exact whole part h

theorem splitBars_cons {c : Char} {text part : List Char} {parts : List (List Char)}
    (split : splitBars text = part :: parts) (single : ¬(c = '|' ∧ text.head? = some '|')) :
    splitBars (c :: text) = (c :: part) :: parts := by
  cases text with
  | nil =>
      cases split
      rfl
  | cons d rest =>
      have apart : ¬((c == '|' && d == '|') = true) := by
        rw [Bool.and_eq_true, beq_iff_eq, beq_iff_eq]
        rintro ⟨rfl, rfl⟩
        exact single ⟨rfl, rfl⟩
      rw [splitBars, if_neg apart, split]

theorem splitBars_of_isWhole {text : List Char} (whole : IsWhole text) :
    splitBars text = [text] := by
  induction text with
  | nil => rfl
  | cons c text ih =>
      obtain ⟨first, later⟩ := List.isChain_cons.mp whole
      exact splitBars_cons (ih later) fun bars => first '|' bars.2 ⟨bars.1, rfl⟩

/-- Bars behind a blank end a part. -/
theorem splitBars_append {text : List Char} (whole : IsWhole text) (rest : List Char) :
    splitBars (text ++ ' ' :: '|' :: '|' :: rest) = (text ++ [' ']) :: splitBars rest := by
  induction text with
  | nil =>
      have bars : splitBars ('|' :: '|' :: rest) = [] :: splitBars rest := rfl
      exact splitBars_cons bars (by simp)
  | cons c text ih =>
      obtain ⟨first, later⟩ := List.isChain_cons.mp whole
      refine splitBars_cons (ih later) ?_
      rintro ⟨rfl, next⟩
      cases text with
      | nil => cases next
      | cons d text => exact first '|' next ⟨rfl, rfl⟩

end Bars

section Commas

/-- The state behind a text. -/
def Nesting.run (n : Nesting) (text : List Char) : Nesting := text.foldl Nesting.step n

/-- Whether none of the commas in a text separates. -/
def keepsCommas (n : Nesting) : List Char → Bool
  | [] => true
  | c :: rest => !(c == ',' && n.isTop) && keepsCommas (n.step c) rest

theorem Nesting.eq_of_isTop {n : Nesting} (h : n.isTop = true) : n = {} := by
  obtain ⟨quote, depth⟩ := n
  simpa [isTop] using h

theorem splitCommas_append {n : Nesting} {text rest part : List Char} {parts : List (List Char)}
    (kept : keepsCommas n text = true)
    (split : splitCommas (n.run text) rest = part :: parts) :
    splitCommas n (text ++ rest) = (text ++ part) :: parts := by
  induction text generalizing n with
  | nil => exact split
  | cons c text ih =>
      rw [keepsCommas, Bool.and_eq_true, Bool.not_eq_true'] at kept
      rw [List.cons_append, splitCommas, kept.1, if_neg Bool.false_ne_true, ih kept.2 split]
      rfl

end Commas

section Operators

theorem mem_of_mem_symbol {op : Comparator} :
    ∀ c ∈ op.symbol.toList, c ∈ ['=', '!', '<', '>', '~'] := by
  have checked : op.symbol.toList.all ['=', '!', '<', '>', '~'].contains = true := by
    cases op with
    | relation r => cases r <;> decide
    | «matches» => decide
    | differs => decide
  exact fun c member => List.contains_iff_mem.mp (List.all_eq_true.mp checked c member)

theorem symbol_ne_nil (op : Comparator) : op.symbol.toList ≠ [] := by
  cases op with
  | relation r => cases r <;> decide
  | «matches» => decide
  | differs => decide

theorem operatorAt?_eq_none_iff {c : Char} {rest : List Char} :
    operatorAt? (c :: rest) = none ↔ c ≠ '<' ∧ c ≠ '>' ∧
      (c = '=' ∨ c = '!' → ∀ d ∈ rest.head?, d ≠ '=' ∧ d ≠ '~') := by
  unfold operatorAt?
  split
  case h_9 _ equal unequal _ _ like unlike greater less =>
    refine ⟨fun _ => ⟨?_, ?_, ?_⟩, fun _ => rfl⟩
    · rintro rfl
      exact less rest rfl
    · rintro rfl
      exact greater rest rfl
    · rintro (rfl | rfl) d next <;> obtain ⟨rest, rfl⟩ := List.head?_eq_some_iff.mp next
      · exact ⟨fun same => equal rest (same ▸ rfl), fun same => like rest (same ▸ rfl)⟩
      · exact ⟨fun same => unequal rest (same ▸ rfl), fun same => unlike rest (same ▸ rfl)⟩
  all_goals
    rename_i begins
    cases begins
    simp

theorem eq_of_operatorAt? {text after : List Char} {op : Comparator}
    (h : operatorAt? text = some (op, after)) : text = op.symbol.toList ++ after := by
  unfold operatorAt? at h
  split at h <;> cases h <;> rfl

theorem findOperator?_cons_eq_none_iff {c : Char} {rest : List Char} :
    findOperator? (c :: rest) = none ↔
      operatorAt? (c :: rest) = none ∧ findOperator? rest = none := by
  rw [findOperator?]
  cases operatorAt? (c :: rest) with
  | none => simp
  | some found => simp

theorem operatorAt?_of_append {c : Char} {front back : List Char}
    (h : operatorAt? (c :: (front ++ back)) = none) : operatorAt? (c :: front) = none := by
  rw [operatorAt?_eq_none_iff] at h ⊢
  refine ⟨h.1, h.2.1, fun own d next => h.2.2 own d ?_⟩
  rw [List.head?_append, next]
  rfl

/-- No text inside one without operators has an operator. -/
theorem findOperator?_of_isInfix {text part : List Char} (h : findOperator? text = none)
    (inside : part <:+: text) : findOperator? part = none := by
  obtain ⟨front, back, rfl⟩ := inside
  rw [List.append_assoc] at h
  induction front with
  | nil =>
      induction part with
      | nil => rfl
      | cons c part ih =>
          obtain ⟨own, later⟩ := findOperator?_cons_eq_none_iff.mp h
          exact findOperator?_cons_eq_none_iff.mpr ⟨operatorAt?_of_append own, ih later⟩
  | cons c front ih => exact ih (findOperator?_cons_eq_none_iff.mp h).2

theorem eq_of_findOperator? {text before after : List Char} {op : Comparator}
    (h : findOperator? text = some (before, op, after)) :
    text = before ++ (op.symbol.toList ++ after) ∧ findOperator? before = none := by
  induction text generalizing before with
  | nil => cases h
  | cons c rest ih =>
      rw [findOperator?] at h
      split at h
      · rename_i found
        cases h
        exact ⟨eq_of_operatorAt? found, rfl⟩
      · rename_i none
        obtain ⟨⟨front, _, _⟩, found, same⟩ := Option.map_eq_some_iff.mp h
        cases same
        obtain ⟨rfl, plain⟩ := ih found
        exact ⟨rfl, findOperator?_cons_eq_none_iff.mpr ⟨operatorAt?_of_append none, plain⟩⟩

/-- The first operator of a text is the one behind a part without operators and a blank. -/
theorem findOperator?_append {key : List Char} (plain : findOperator? key = none)
    (op : Comparator) (rest : List Char) :
    findOperator? (key ++ ' ' :: (op.symbol.toList ++ ' ' :: rest)) =
      some (key ++ [' '], op, ' ' :: rest) := by
  induction key with
  | nil => cases op with
    | relation r => cases r <;> rfl
    | «matches» => rfl
    | differs => rfl
  | cons c key ih =>
      obtain ⟨own, later⟩ := findOperator?_cons_eq_none_iff.mp plain
      have none : operatorAt? (c :: (key ++ ' ' :: (op.symbol.toList ++ ' ' :: rest))) = none := by
        rw [operatorAt?_eq_none_iff] at own ⊢
        refine ⟨own.1, own.2.1, fun first d next => ?_⟩
        cases key with
        | nil =>
            cases next
            decide
        | cons e key => exact own.2.2 first d next
      rw [List.cons_append, findOperator?, none, ih later]
      rfl

theorem findOperator?_symbol (op : Comparator) (rest : List Char) :
    findOperator? (op.symbol.toList ++ ' ' :: rest) = some ([], op, ' ' :: rest) := by
  cases op with
  | relation r => cases r <;> rfl
  | «matches» => rfl
  | differs => rfl

end Operators

section Quotes

theorem unquote?_eq_some_iff {mark : Char} {text inner : List Char} :
    unquote? mark text = some inner ↔ text = mark :: (inner ++ [mark]) ∧ mark ∉ inner := by
  cases text with
  | nil => exact ⟨nofun, nofun⟩
  | cons c rest =>
      rw [unquote?]
      split
      · rename_i d back same
        rw [List.reverse_eq_cons_iff] at same
        subst same
        rw [Option.ite_none_right_eq_some, Option.some.injEq]
        constructor
        · rintro ⟨quoted, rfl⟩
          simpa using quoted
        · rintro ⟨same, plain⟩
          simp at same
          obtain ⟨rfl, rfl, rfl⟩ := same
          simpa using plain
      · rename_i same
        rw [List.reverse_eq_nil_iff.mp same]
        simp

theorem stripQuotes_isInfix (text : List Char) : stripQuotes text <:+: text := by
  have inside : ∀ {mark inner}, unquote? mark text = some inner → inner <:+: text := by
    intro mark inner h
    obtain ⟨rfl, -⟩ := unquote?_eq_some_iff.mp h
    exact ⟨[mark], [mark], rfl⟩
  rw [stripQuotes]
  cases double : unquote? '"' text with
  | some inner => exact inside double
  | none =>
      cases single : unquote? '\'' text with
      | some inner => exact inside single
      | none => exact List.infix_rfl

/-- A text in single quotes loses them unless there are some inside. -/
theorem stripQuotes_singleQuoted (text : List Char) :
    stripQuotes ('\'' :: (text ++ ['\''])) =
      if '\'' ∈ text then '\'' :: (text ++ ['\'']) else text := by
  have double : unquote? '"' ('\'' :: (text ++ ['\''])) = none := by
    rw [Option.eq_none_iff_forall_ne_some]
    intro inner h
    cases (unquote?_eq_some_iff.mp h).1
  rw [stripQuotes, double, Option.getD_none]
  split
  · rename_i quote
    have single : unquote? '\'' ('\'' :: (text ++ ['\''])) = none := by
      rw [Option.eq_none_iff_forall_ne_some]
      intro inner h
      obtain ⟨same, plain⟩ := unquote?_eq_some_iff.mp h
      rw [List.append_cancel_right (List.cons.inj same).2] at quote
      exact plain quote
    rw [single]
    rfl
  · rename_i plain
    rw [unquote?_eq_some_iff.mpr ⟨rfl, plain⟩]
    rfl

end Quotes

end CharacterRules.Prerequisite
