import CharacterRules.Proofs.Note.LiteralChange
import CharacterRules.Proofs.Note.Placeholder
import CharacterRules.Proofs.Note.Recompile
import CharacterRules.Proofs.Note.Section

/-!
Changes by computed amounts. Such a clause is read again with the number of its placeholder in place of
the expression, and what a clause refers to has one digit. So the placeholder is the source of a rule if
its number is below ten; from ten on it is computed, but nothing comes from it.
-/

namespace CharacterRules.Note

def Change.sign : Change → Char
  | .increase => '+'
  | .decrease => '-'
  | .multiply => 'x'

/-- The phrase of a change, from the white space in front of it on: it is on one line, and a point at
its end is dropped. -/
def phraseBehind? (text : List Char) : Option String := do
  let phrase ← skipSpaces? text
  if phrase.isEmpty || phrase.contains '\n' then none
  else
    let phrase :=
      if 2 ≤ phrase.length && phrase.getLast? == some '.' then phrase.dropLast else phrase
    some (String.ofList phrase)

/-- A clause with a sign, a placeholder that holds a formula, and a phrase behind it. -/
structure ExpressionChange where
  change : Change
  inside : List Char
  behind : List Char
  formula : Expr
  free : '\x7d' ∉ inside
  parsed : Formula.parse (String.ofList inside) = .ok formula

namespace ExpressionChange

/-- The clause. -/
def text (x : ExpressionChange) : List Char :=
  x.change.sign :: '%' :: '\x7b' :: (x.inside ++ '\x7d' :: x.behind)

/-- The phrase of the clause if its placeholder has a number; placeholders in the phrase have the
numbers that follow. -/
def phrase? (x : ExpressionChange) (number : Nat) : Option String :=
  (numbered? (number + 1) x.behind).bind phraseBehind?

end ExpressionChange

/-- The number that the next placeholder of a note gets behind some of its clauses. -/
def numberAfter (note : String) (before : List (List Char)) : Nat :=
  before.foldl numberBehind (firstPlaceholder note.toList)

theorem readDelta?_sign (change : Change) (text : List Char) :
    readDelta? (change.sign :: text) = (readAmount? text).bind fun (amount, rest) =>
      (phraseBehind? rest).map (⟨change, amount, ·⟩) := by
  have phrases : ∀ amount rest, (do
      let phrase ← skipSpaces? rest
      if phrase.isEmpty || phrase.contains '\n' then none
      else
        let phrase :=
          if 2 ≤ phrase.length && phrase.getLast? == some '.' then phrase.dropLast else phrase
        some (Delta.mk change amount (String.ofList phrase))) =
      (phraseBehind? rest).map (⟨change, amount, ·⟩) := by
    intro amount rest
    rw [phraseBehind?]
    cases skipSpaces? rest with
    | none => rfl
    | some phrase =>
        dsimp only [Option.bind_eq_bind, Option.bind_some]
        split <;> rfl
  cases change <;> exact congrArg (readAmount? text).bind (funext fun found => phrases found.1 found.2)

/-- A numeral from one to nine is a single mark. -/
theorem exists_mark_of_le {number : Nat} (first : 1 ≤ number) (last : number ≤ 9) :
    ∃ mark, ('1' ≤ mark ∧ mark ≤ '9') ∧ toString number = String.singleton mark := by
  have marks : ∀ n < 10, 1 ≤ n → ('1' ≤ Char.ofNat (n + 48) ∧ Char.ofNat (n + 48) ≤ '9') ∧
      toString n = String.singleton (Char.ofNat (n + 48)) := by decide
  exact ⟨_, marks number (Nat.lt_succ_of_le last) first⟩

theorem numbered?_eq (next : Nat) (clause : List Char) :
    numbered? next clause = (outlinePieces next (pieces clause)).2.2 := by
  rw [numbered?, hasPlaceholder]
  cases found : findPlaceholder? clause with
  | none =>
      rw [pieces_of_find_none found]
      simp [outlinePieces]
  | some parts => rfl

theorem le_numberBehind (next : Nat) (clause : List Char) : next ≤ numberBehind next clause := by
  rw [numberBehind]
  split
  · exact (areNumbered_outlinePieces next _).le
  · exact Nat.le_refl next

theorem one_le_numberAfter (note : String) (before : List (List Char)) :
    1 ≤ numberAfter note before := by
  have later : ∀ (clauses : List (List Char)) (next : Nat),
      next ≤ clauses.foldl numberBehind next := by
    intro clauses
    induction clauses with
    | nil => exact fun next => Nat.le_refl next
    | cons clause rest ih => exact fun next => (le_numberBehind next clause).trans (ih _)
  exact (Nat.le_add_left 1 _).trans (later before _)

theorem mem_outlines (c : Context) (before : List (List Char)) (clause : List Char)
    (after : List (List Char)) :
    outlineClause standardPhrasings { c with next := before.foldl numberBehind c.next } clause ∈
      outlines standardPhrasings c (before ++ clause :: after) := by
  induction before generalizing c with
  | nil => exact List.mem_cons_self
  | cons first rest ih =>
      refine .tail _ ?_
      have later := ih { c with next := (outlineClause standardPhrasings c first).next }
      dsimp only at later
      rw [next_outlineClause] at later ⊢
      exact later

namespace ExpressionChange

variable (x : ExpressionChange)

theorem findPlaceholder?_text :
    findPlaceholder? x.text = some ([x.change.sign], x.inside, x.behind) := by
  have nonempty : x.inside ≠ [] := by
    intro empty
    have parsed := x.parsed
    rw [empty] at parsed
    have fails : (Formula.parse (String.ofList [])).toOption.isNone = true := by decide +kernel
    rw [parsed] at fails
    cases fails
  have first : opened? x.text = none := opened?_cons_of_ne (by cases x.change <;> decide) _
  have second : opened? ('%' :: '\x7b' :: (x.inside ++ '\x7d' :: x.behind)) =
      some (x.inside, x.behind) := opened?_eq_some.mpr ⟨rfl, nonempty, x.free⟩
  rw [text] at first ⊢
  rw [findPlaceholder?_cons, first, findPlaceholder?_cons, second]
  rfl

/-- A phrase on one line, without a placeholder and without a point at its end, stays as it is. -/
theorem phrase?_of_plain {blank phrase : List Char} (behind : x.behind = blank ++ phrase)
    (gap : blank ≠ []) (spaces : ∀ c ∈ blank, Unicode.isSpace c = true)
    (trimmed : Text.IsTrimmed phrase) (line : '\n' ∉ phrase) (ending : phrase.getLast? ≠ some '.')
    (plain : hasPlaceholder x.behind = false) (number : Nat) :
    x.phrase? number = some (String.ofList phrase) := by
  have nonempty : phrase ≠ [] := trimmed.ne_nil
  obtain ⟨c, -, first, -, visible, -⟩ := trimmed
  obtain ⟨space, more, rfl⟩ := List.exists_cons_of_ne_nil gap
  have skipped : skipSpaces? (space :: (more ++ phrase)) = some phrase := by
    rw [skipSpaces?, if_pos (spaces space List.mem_cons_self)]
    refine congrArg some (Text.dropWhile_append_of_visible (fun d member => ?_) first visible)
    exact spaces d (.tail space member)
  rw [phrase?, numbered?, plain, if_neg Bool.false_ne_true, Option.bind_some, behind, phraseBehind?,
    List.cons_append, skipped]
  simp [nonempty, line, ending]

theorem readCount?_text : readCount? x.text = none := by
  have minus : Unicode.decimalDigit.contains '-' = false := by decide +kernel
  have times : Unicode.decimalDigit.contains 'x' = false := by decide +kernel
  rw [text]
  cases x.change with
  | increase => rfl
  | decrease => simp [readCount?, Change.sign, spanDigits, minus]
  | multiply => simp [readCount?, Change.sign, spanDigits, times]

theorem outlinePieces_text (next : Nat) : outlinePieces next (pieces x.text) =
    let (parts, last, clause) := outlinePieces (next + 1) (pieces x.behind)
    (⟨next, piecesLength (.placeholder (String.ofList x.inside) :: pieces x.behind),
        String.ofList x.inside, x.formula⟩ :: parts, last,
      clause.map fun rest => x.change.sign :: '%' :: ((toString next).toList ++ rest)) := by
  rw [pieces_of_find_some x.findPlaceholder?_text, outlinePieces, outlinePieces, x.parsed]
  dsimp only
  rw [Option.map_map]
  simp [Function.comp_def]

theorem numbered?_text (next : Nat) : numbered? next x.text =
    (numbered? (next + 1) x.behind).map fun rest =>
      x.change.sign :: '%' :: ((toString next).toList ++ rest) := by
  rw [numbered?_eq, numbered?_eq, outlinePieces_text]

/-- The placeholder is computed. -/
theorem exists_part (c : Context) : ∃ p ∈ (outlineClause standardPhrasings c x.text).parts,
    p.number = c.next ∧ p.formula = x.formula := by
  have held : hasPlaceholder x.text = true := by rw [hasPlaceholder, findPlaceholder?_text]; rfl
  have outlined : (outlineClause standardPhrasings c x.text).parts =
      (outlinePieces c.next (pieces x.text)).1 := by
    simp [outlineClause, standardPhrasings, Phrasing.outline?, x.readCount?_text, held]
  rw [outlined, outlinePieces_text]
  exact ⟨_, List.mem_cons_self, rfl, rfl⟩

/-- With a number of one digit the clause words its change. -/
theorem exists_wording {c : Context} {phrase : String} (named : x.phrase? c.next = some phrase)
    (first : 1 ≤ c.next) (last : c.next ≤ 9) :
    ∃ w, (outlineClause standardPhrasings c x.text).wording = some w ∧ w.place = .named phrase ∧
      w.source = partKey c.key c.next ∧ w.op = x.change.operator := by
  obtain ⟨mark, digit, numeral⟩ := exists_mark_of_le first last
  obtain ⟨rest, numbered, phrased⟩ := Option.bind_eq_some_iff.mp named
  have reference : isReferenceMark false mark = true := by
    simp [isReferenceMark, digit.1, digit.2]
  -- a number of one digit is a reference mark, so the clause reads as a change by it
  have amount : readAmount? ('%' :: mark :: rest) = some (.reference mark, rest) := by
    rw [readAmount?, if_pos reference]
  have read : (numbered? c.next x.text).bind readDelta? =
      some ⟨x.change, .reference mark, phrase⟩ := by
    rw [numbered?_text, numbered, Option.map_some, Option.bind_some, numeral,
      String.toList_singleton, List.singleton_append, readDelta?_sign, amount, Option.bind_some]
    dsimp only
    rw [phrased, Option.map_some]
  refine ⟨_, by rw [wording_outlineClause, x.readCount?_text, read, Option.map_some], rfl, ?_, ?_⟩
  · have other : mark ≠ 'V' := by
      rintro rfl
      exact absurd digit.2 (by decide)
    rw [partKey, numeral, Context.change]
    dsimp only
    unfold Context.amount
    split
    · rename_i digits
      cases digits
    · rename_i capital
      exact absurd (AmountText.reference.inj capital) other
    · rename_i own
      rw [← AmountText.reference.inj own]
  · cases x.change <;> rfl

end ExpressionChange

/-- Nothing that notes change comes from a part whose number has two digits. -/
theorem source_ne_partKey {phrasings : List Phrasing} {name : String} {note : String × String}
    {w : Wording} (h : w ∈ wordingsOf phrasings name note) (category : String) {number : Nat}
    (many : 9 < number) : w.source ≠ partKey (noteKey category name) number := by
  have amounts : ∀ (c : Context) (text : AmountText), c.key = noteKey note.1 name →
      c.feature = "features." ++ name → (c.amount text).1 ≠ partKey (noteKey category name) number := by
    intro c text key feature
    unfold Context.amount
    split
    · intro same
      refine noteKey_append_ne category name ("." ++ toString number) ?_
      rw [← String.append_assoc]
      exact same.symm.trans feature
    · rw [key]
      exact noteKey_ne_partKey note.1 name category number
    · exact mark_ne_partKey many _ _ _
  obtain ⟨next, ⟨d, rfl⟩ | ⟨text, counted, rfl⟩⟩ := exists_of_mem_wordingsOf h
  · exact amounts _ _ rfl rfl
  · exact amounts _ _ rfl rfl

theorem mergeAll_ne_nil (waiting : List PendingDelta) {changes : List PendingDelta}
    (h : changes ≠ []) : mergeAll waiting changes ≠ [] := by
  have pushed : ∀ (d : PendingDelta) (waiting : List PendingDelta), d.push waiting ≠ [] := by
    intro d waiting
    cases waiting with
    | nil => exact List.cons_ne_nil d []
    | cons e rest =>
        rw [PendingDelta.push]
        split <;> exact List.cons_ne_nil _ _
  obtain ⟨front, last, rfl⟩ := (List.eq_nil_or_concat' changes).resolve_left h
  rw [mergeAll_append]
  exact pushed last _

section

variable {g : RuleGraph} (built : g.Built) (names : TargetNames) (name : String)
  {notes : List (String × String)} {target source : String} {op : Operator}

include built

/-- A change that is worded has a rule at its place. -/
theorem rulesAt_compileNotes_ne_nil {phrasings : List Phrasing} {note : String × String}
    (member : note ∈ notes) {w : Wording} (worded : w ∈ wordingsOf phrasings name note)
    (named : w.place.key? names g = some target) (sources : w.source = source) (ops : w.op = op) :
    (compileNotes phrasings g names name notes).rulesAt target source op ≠ [] := by
  have changed : (changesOf phrasings names g name notes).filter (·.isAt target source op) ≠ [] := by
    have pending : w.pending? names g = some ⟨target, source, op, w.amount⟩ := by
      rw [Wording.pending?, named, sources, ops, Option.map_some]
    rw [changesOf, filter_mergeAll]
    refine mergeAll_ne_nil _ (List.ne_nil_of_mem (List.mem_filter.mpr
      ⟨List.mem_filterMap.mpr ⟨w, List.mem_flatMap.mpr ⟨note, member, worded⟩, pending⟩, ?_⟩))
    simp [PendingDelta.isAt]
  have rules : ((changesOf phrasings names g name notes).map PendingDelta.rule).filter
      (·.isAt target source op) ≠ [] := by
    have places : (fun r : Rule => r.isAt target source op) ∘ PendingDelta.rule =
        fun d => d.isAt target source op := rfl
    rw [List.filter_map, places]
    exact mt List.map_eq_nil_iff.mp changed
  rw [compileNotes_eq, RuleGraph.rulesAt, rules_keepNotes]
  refine ne_of_eq_of_ne (built.consistent.rulesAt_defineAll _ target source op) ?_
  rw [List.filter_append, List.foldl_append]
  exact RuleGraph.foldl_register_ne_nil _ rules

/-- Where no change is worded, nothing is registered. -/
theorem rulesAt_compileNotes_eq (merged : op = .add ∨ op = .multiply)
    (other : ∀ note ∈ notes, ∀ w ∈ wordingsOf standardPhrasings name note, w.source ≠ source) :
    (compileNotes standardPhrasings g names name notes).rulesAt target source op =
      g.rulesAt target source op := by
  rw [compileNotes_eq, RuleGraph.rulesAt, rules_keepNotes]
  refine (built.consistent.rulesAt_defineAll _ target source op).trans ?_
  have none : (notes.flatMap (rulesOf standardPhrasings name) ++
      (changesOf standardPhrasings names g name notes).map PendingDelta.rule).filter
        (·.isAt target source op) = [] := by
    refine List.filter_eq_nil_iff.mpr fun r given => ?_
    cases List.mem_append.mp given with
    | inl own =>
        obtain ⟨note, -, own⟩ := List.mem_flatMap.mp own
        exact Bool.eq_false_iff.mp (isAt_of_mem_rulesOf own target source merged)
    | inr change =>
        obtain ⟨d, changed, rfl⟩ := List.mem_map.mp change
        obtain ⟨note, member, w, worded, -, same, -⟩ := exists_of_mem_changesOf changed
        have elsewhere : d.rule.source ≠ source := fun here => other note member w worded (same.trans here)
        simp [Rule.isAt, elsewhere]
  rw [none, List.foldl_nil]

end

/-- In a graph that was built by registrations, the placeholder of a change by a computed amount is
registered under its number. A rule from it onto the attribute that the phrase of the clause names is there
if the number is below ten; from ten on nothing is registered from it. -/
theorem compileFeature_expressionChange {g : RuleGraph} (built : g.Built) (names : TargetNames)
    (name : String) {sections notes : List String} (paired : sections.length = notes.length)
    {category note : String} (member : (category, note) ∈ sections.zip notes)
    {before after : List (List Char)} (x : ExpressionChange)
    (clauses : clausesOf note = before ++ x.text :: after) :
    ∃ g', compileFeature standardPhrasings g names name sections notes = .ok g' ∧
      (∀ r ∈ placeholderRules (partKey (noteKey category name) (numberAfter note before))
        ("features." ++ name) x.formula, g'.hasRule r = true) ∧
      (numberAfter note before ≤ 9 → ∀ phrase target,
        x.phrase? (numberAfter note before) = some phrase → names.canonicalize g phrase = some target →
          g'.rulesAt target (partKey (noteKey category name) (numberAfter note before))
            x.change.operator ≠ []) ∧
      (9 < numberAfter note before → ∀ target op, op = .add ∨ op = .multiply →
        g'.rulesAt target (partKey (noteKey category name) (numberAfter note before)) op =
          g.rulesAt target (partKey (noteKey category name) (numberAfter note before)) op) := by
  have outlined : outlineClause standardPhrasings
      { contextOf name category note with next := numberAfter note before } x.text ∈
        outlinesOf standardPhrasings name (category, note) := by
    rw [outlinesOf, clauses]
    exact mem_outlines (contextOf name category note) before x.text after
  refine ⟨compileNotes standardPhrasings g names name (sections.zip notes), ?_, fun r given => ?_,
    fun few phrase target phrased named => ?_, fun many target op merged => ?_⟩
  · rw [compileFeature, if_neg (not_not.mpr paired)]
  · obtain ⟨p, part, number, formula⟩ :=
      x.exists_part { contextOf name category note with next := numberAfter note before }
    have own : r ∈ rulesOf standardPhrasings name (category, note) := by
      refine .tail _ (List.mem_flatMap.mpr ⟨p, List.mem_flatMap.mpr ⟨_, outlined, part⟩, ?_⟩)
      rw [number, formula]
      exact given
    exact hasRule_compileNotes standardPhrasings built names name _
      (List.mem_append_left _ (List.mem_flatMap.mpr ⟨_, member, own⟩)) (beq_self_of_mem_rulesOf own)
  · obtain ⟨w, worded, place, source, op⟩ := x.exists_wording
      (c := { contextOf name category note with next := numberAfter note before }) phrased
      (one_le_numberAfter note before) few
    refine rulesAt_compileNotes_ne_nil built names name member
      (List.mem_flatMap.mpr ⟨_, outlined, Option.mem_toList.mpr worded⟩) ?_ source op
    rw [place]
    exact named
  · exact rulesAt_compileNotes_eq built names name merged fun other _ w worded =>
      source_ne_partKey worded category many

/-- Two changes by computed amounts, the second one with a further placeholder in a remark. -/
def duelistNote : String := "+%{level} Parry/x%{strength / 2} Pace (%{level} at most)."

theorem compileFeature_duelistNote : RuleGraph.Built {} ∧ ["combat"].length = [duelistNote].length ∧
    ("combat", duelistNote) ∈ ["combat"].zip [duelistNote] ∧
    ∃ x : ExpressionChange, x.text = "x%\x7bstrength / 2\x7d Pace (%\x7blevel\x7d at most).".toList ∧
      clausesOf duelistNote = ["+%\x7blevel\x7d Parry".toList] ++ x.text :: [] ∧
      x.phrase? (numberAfter duelistNote ["+%\x7blevel\x7d Parry".toList]) =
        some "Pace (%3 at most)" ∧
      ∃ g, compileFeature standardPhrasings {} fencingNames "Foo" ["combat"] [duelistNote] = .ok g ∧
        g.rulesAt "pace" "combatNotes.foo.2" .multiply ≠ [] := by
  have reads : (Formula.parse (String.ofList "strength / 2".toList)).isOk = true := by decide +kernel
  obtain ⟨e, parsed⟩ := exists_of_isOk reads
  let x : ExpressionChange :=
    ⟨.multiply, "strength / 2".toList, " Pace (%\x7blevel\x7d at most).".toList, e, by decide, parsed⟩
  have text : x.text = "x%\x7bstrength / 2\x7d Pace (%\x7blevel\x7d at most).".toList := by
    show Change.sign .multiply :: '%' :: '\x7b' ::
      ("strength / 2".toList ++ '\x7d' :: " Pace (%\x7blevel\x7d at most).".toList) = _
    decide
  have clauses : clausesOf duelistNote = ["+%\x7blevel\x7d Parry".toList] ++ x.text :: [] := by
    rw [text]
    decide
  have second : numberAfter duelistNote ["+%\x7blevel\x7d Parry".toList] = 2 := by decide +kernel
  have phrased : x.phrase? 2 = some "Pace (%3 at most)" := by
    show (numbered? 3 " Pace (%\x7blevel\x7d at most).".toList).bind phraseBehind? = _
    decide +kernel
  have paired : ["combat"].length = [duelistNote].length := rfl
  have member : ("combat", duelistNote) ∈ ["combat"].zip [duelistNote] := List.mem_cons_self
  obtain ⟨g, compiled, -, changed, -⟩ := compileFeature_expressionChange RuleGraph.built_empty
    fencingNames "Foo" paired member x clauses
  rw [second] at changed
  have key : partKey (noteKey "combat" "Foo") 2 = "combatNotes.foo.2" := by decide +kernel
  refine ⟨RuleGraph.built_empty, paired, member, x, text, clauses, second ▸ phrased, g, compiled, ?_⟩
  exact key ▸ changed (by decide) _ _ phrased (by decide +kernel)

/-- A change by a computed amount behind a reference with the highest number. -/
def tenthNote : String := "Up to %9 times/+%{level} Parry"

/-- The placeholder is the tenth; it is computed, but nothing changes the attribute. -/
theorem compileFeature_tenthNote :
    clausesOf tenthNote = ["Up to %9 times".toList, "+%\x7blevel\x7d Parry".toList] ∧
    numberAfter tenthNote ["Up to %9 times".toList] = 10 ∧
    fencingNames.canonicalize {} "Parry" = some "parry" ∧
    ∃ g, compileFeature standardPhrasings {} fencingNames "Foo" ["combat"] [tenthNote] = .ok g ∧
      g.hasTarget "combatNotes.foo.10" = true ∧ g.rulesFor "parry" = [] := by
  exact ⟨by decide +kernel, by decide +kernel, by decide +kernel, _, rfl, by decide +kernel,
    List.length_eq_zero_iff.mp (by decide +kernel)⟩

end CharacterRules.Note
