import CharacterRules.Text.Basic

/-!
What trimming leaves: a text that begins and ends with something visible loses only the white space
around it.
-/

namespace CharacterRules.Text

theorem takeWhile_append_of_stop {p : Char → Bool} {text rest : List Char}
    (all : ∀ c ∈ text, p c = true) (stop : ∀ c ∈ rest.head?, p c = false) :
    (text ++ rest).takeWhile p = text := by
  have none : rest.takeWhile p = [] := by
    cases rest with
    | nil => rfl
    | cons c rest => exact List.takeWhile_cons_of_neg (Bool.eq_false_iff.mp (stop c rfl))
  rw [List.takeWhile_append_of_pos all, none, List.append_nil]

theorem dropWhile_append_of_visible {blank text : List Char}
    (spaces : ∀ c ∈ blank, Unicode.isSpace c = true) {c : Char} (first : text.head? = some c)
    (visible : Unicode.isSpace c = false) :
    (blank ++ text).dropWhile Unicode.isSpace = text := by
  obtain ⟨rest, rfl⟩ := List.head?_eq_some_iff.mp first
  rw [List.dropWhile_append_of_pos spaces,
    List.dropWhile_cons_of_neg (Bool.eq_false_iff.mp visible)]

theorem trimChars_between {front text back : List Char}
    (before : ∀ c ∈ front, Unicode.isSpace c = true) (behind : ∀ c ∈ back, Unicode.isSpace c = true)
    {c d : Char} (first : text.head? = some c) (last : text.getLast? = some d)
    (visible : Unicode.isSpace c = false) (visible' : Unicode.isSpace d = false) :
    trimChars (front ++ (text ++ back)) = text := by
  have start : (text ++ back).head? = some c := by
    rw [List.head?_append, first, Option.some_or]
  have stop : text.reverse.head? = some d := by
    rw [List.head?_reverse, last]
  have spaces : ∀ c ∈ back.reverse, Unicode.isSpace c = true := by
    intro c hc
    exact behind c (List.mem_reverse.mp hc)
  rw [trimChars, dropWhile_append_of_visible before start visible, dropEndWhile,
    List.reverse_append, dropWhile_append_of_visible spaces stop visible', List.reverse_reverse]

theorem trimChars_eq_self {text : List Char} {c d : Char} (first : text.head? = some c)
    (last : text.getLast? = some d) (visible : Unicode.isSpace c = false)
    (visible' : Unicode.isSpace d = false) : trimChars text = text := by
  have trimmed : trimChars ([] ++ (text ++ [])) = text :=
    trimChars_between (List.forall_mem_nil _) (List.forall_mem_nil _) first last visible visible'
  rwa [List.nil_append, List.append_nil] at trimmed

theorem trim_eq_self {text : String} {c d : Char} (first : text.toList.head? = some c)
    (last : text.toList.getLast? = some d) (visible : Unicode.isSpace c = false)
    (visible' : Unicode.isSpace d = false) : trim text = text := by
  rw [trim, trimChars_eq_self first last visible visible', String.ofList_toList]

/-- A text that begins and ends with something visible. -/
def IsTrimmed (text : List Char) : Prop := ∃ c d, text.head? = some c ∧ text.getLast? = some d ∧
  Unicode.isSpace c = false ∧ Unicode.isSpace d = false

/-- A text with white space around it, or without. -/
def IsPadded (text padded : List Char) : Prop := ∃ front back,
  (∀ c ∈ front, Unicode.isSpace c = true) ∧ (∀ c ∈ back, Unicode.isSpace c = true) ∧
    padded = front ++ (text ++ back)

theorem IsPadded.refl (text : List Char) : IsPadded text text :=
  ⟨[], [], List.forall_mem_nil _, List.forall_mem_nil _, (List.append_nil text).symm⟩

theorem IsTrimmed.trimChars_eq {text padded : List Char} (h : IsTrimmed text)
    (around : IsPadded text padded) : trimChars padded = text := by
  obtain ⟨c, d, first, last, visible, visible'⟩ := h
  obtain ⟨front, back, before, behind, rfl⟩ := around
  exact trimChars_between before behind first last visible visible'

theorem IsTrimmed.ne_nil {text : List Char} (h : IsTrimmed text) : text ≠ [] := by
  obtain ⟨c, d, first, -⟩ := h
  rintro rfl
  cases first

theorem IsTrimmed.of_visible {text : List Char} (nonempty : text ≠ [])
    (visible : ∀ c ∈ text, Unicode.isSpace c = false) : IsTrimmed text :=
  ⟨text.head nonempty, text.getLast nonempty, List.head?_eq_some_head nonempty,
    List.getLast?_eq_some_getLast nonempty, visible _ (List.head_mem nonempty),
    visible _ (List.getLast_mem nonempty)⟩

theorem IsTrimmed.append {front back : List Char} (h : IsTrimmed front) (h' : IsTrimmed back)
    (between : List Char) : IsTrimmed (front ++ (between ++ back)) := by
  obtain ⟨c, -, first, -, visible, -⟩ := h
  obtain ⟨-, d, -, last, -, visible'⟩ := h'
  refine ⟨c, d, ?_, ?_, visible, visible'⟩
  · rw [List.head?_append, first]
    rfl
  · rw [List.getLast?_append, List.getLast?_append, last]
    rfl

theorem dropEndWhile_isPrefix (p : Char → Bool) (text : List Char) :
    dropEndWhile p text <+: text := by
  rw [← List.reverse_suffix, dropEndWhile, List.reverse_reverse]
  exact List.dropWhile_suffix p

/-- What trimming leaves of a text is inside of it. -/
theorem trimChars_isInfix (text : List Char) : trimChars text <:+: text :=
  (dropEndWhile_isPrefix _ _).isInfix.trans (List.dropWhile_suffix _).isInfix

theorem exists_head?_dropWhile {p : Char → Bool} {text : List Char} (h : text.dropWhile p ≠ []) :
    ∃ c, (text.dropWhile p).head? = some c ∧ p c = false := by
  have stop := List.head?_dropWhile_not p text
  obtain ⟨c, rest, same⟩ := List.exists_cons_of_ne_nil h
  rw [same] at stop ⊢
  exact ⟨c, rfl, stop⟩

/-- Trimming leaves nothing, or a text that begins and ends with something visible. -/
theorem isTrimmed_trimChars {text : List Char} (nonempty : trimChars text ≠ []) :
    IsTrimmed (trimChars text) := by
  have whole := dropEndWhile_isPrefix Unicode.isSpace (text.dropWhile Unicode.isSpace)
  change trimChars text <+: _ at whole
  obtain ⟨c, first, visible⟩ := exists_head?_dropWhile fun nothing =>
    nonempty (List.prefix_nil.mp (nothing ▸ whole))
  obtain ⟨d, last, visible'⟩ := exists_head?_dropWhile fun nothing =>
    nonempty (List.reverse_eq_nil_iff.mpr nothing)
  refine ⟨c, d, ?_, ?_, visible, visible'⟩
  · obtain ⟨e, rest, same⟩ := List.exists_cons_of_ne_nil nonempty
    obtain ⟨more, appended⟩ := whole
    rw [← appended, same] at first
    rw [same]
    exact first
  · rw [← last, trimChars, dropEndWhile, List.getLast?_reverse]

end CharacterRules.Text
