import CharacterRules.Proofs.Prerequisite.ShownComparison

/-!
Reading a requirement back from its text. The bars and the commas that divide the text are those between
the comparisons and the clauses, so each of them is read back on its own, and as no clause equals an
earlier one, none is left out.
-/

namespace CharacterRules.Prerequisite

theorem toList_join_cons {separator text : String} {rest : List String} (other : rest ≠ []) :
    (Text.join separator (text :: rest)).toList =
      text.toList ++ (separator.toList ++ (Text.join separator rest).toList) := by
  rw [Text.join]
  · simp
  · exact other

theorem isSpace_of_blank {text : List Char} (blank : text = [] ∨ text = [' ']) :
    ∀ c ∈ text, Unicode.isSpace c = true := by
  rcases blank with rfl | rfl
  · exact List.forall_mem_nil _
  · exact List.forall_mem_singleton.mpr rfl

theorem isPadded_append {front back : List Char} (before : front = [] ∨ front = [' '])
    (behind : back = [] ∨ back = [' ']) (text : List Char) :
    Text.IsPadded text (front ++ (text ++ back)) :=
  ⟨front, back, isSpace_of_blank before, isSpace_of_blank behind, rfl⟩

/-- The parts between the bars of a clause are its alternatives with blanks around them. -/
theorem forall₂_splitBars {texts : List String} (nonempty : texts ≠ [])
    (whole : ∀ text ∈ texts, IsWhole text.toList) (front : List Char)
    (blank : front = [] ∨ front = [' ']) :
    List.Forall₂ (fun text part => Text.IsPadded text.toList part) texts
      (splitBars (front ++ (Text.join " || " texts).toList)) := by
  have own : ∀ text ∈ texts, IsWhole (front ++ text.toList) := by
    intro text member
    rcases blank with rfl | rfl
    · exact whole text member
    · exact (whole text member).cons (by decide)
  induction texts using Text.join.induct generalizing front with
  | case1 => exact absurd rfl nonempty
  | case2 text =>
      rw [Text.join, splitBars_of_isWhole (own text List.mem_cons_self)]
      have padded := isPadded_append blank (.inl rfl) text.toList
      rw [List.append_nil] at padded
      exact .cons padded .nil
  | case3 text rest other ih =>
      have joined : front ++ (Text.join " || " (text :: rest)).toList =
          (front ++ text.toList) ++ ' ' :: '|' :: '|' :: ([' '] ++ (Text.join " || " rest).toList) := by
        rw [toList_join_cons other, List.append_assoc]
        rfl
      obtain ⟨-, later⟩ := List.forall_mem_cons.mp whole
      rw [joined, splitBars_append (own text List.mem_cons_self), List.append_assoc]
      refine .cons (isPadded_append blank (.inr rfl) text.toList) (ih other later [' '] (.inr rfl) ?_)
      exact fun next member => (later next member).cons (by decide)

/-- Whether the commas that separate in the text of some clauses are those between them: each text
keeps its own commas, and what it opens is closed before the next one. -/
def areSeparated : List String → Bool
  | [] => true
  | [text] => keepsCommas {} text.toList
  | text :: rest =>
    keepsCommas {} text.toList && (Nesting.run {} text.toList).isTop && areSeparated rest

/-- The parts between the commas of a requirement are its clauses with blanks around them. -/
theorem forall₂_splitCommas {texts : List String} (nonempty : texts ≠ [])
    (separated : areSeparated texts = true) (front : List Char)
    (blank : front = [] ∨ front = [' ']) :
    List.Forall₂ (fun text part => Text.IsPadded text.toList part) texts
      (splitCommas {} (front ++ (Text.join ", " texts).toList)) := by
  -- `front` is the blank behind a comma, which belongs to the next part and changes no state
  have stays : ∀ text, keepsCommas {} (front ++ text) = keepsCommas {} text ∧
      Nesting.run {} (front ++ text) = Nesting.run {} text := by
    intro text
    rcases blank with rfl | rfl <;> exact ⟨rfl, rfl⟩
  induction texts using Text.join.induct generalizing front with
  | case1 => exact absurd rfl nonempty
  | case2 text =>
      have kept : keepsCommas {} (front ++ text.toList) = true := by rwa [(stays _).1]
      have padded := isPadded_append blank (.inl rfl) text.toList
      rw [List.append_nil] at padded
      have last : splitCommas (Nesting.run {} (front ++ text.toList)) [] = [[]] := rfl
      have split := splitCommas_append kept last
      rw [List.append_nil] at split
      rw [Text.join, split]
      exact .cons padded .nil
  | case3 text rest other ih =>
      rw [areSeparated, Bool.and_eq_true, Bool.and_eq_true] at separated
      · obtain ⟨⟨kept, closed⟩, later⟩ := separated
        have joined : front ++ (Text.join ", " (text :: rest)).toList =
            (front ++ text.toList) ++ ',' :: ([' '] ++ (Text.join ", " rest).toList) := by
          rw [toList_join_cons other, List.append_assoc]
          rfl
        have behind : splitCommas (Nesting.run {} (front ++ text.toList))
            (',' :: ([' '] ++ (Text.join ", " rest).toList)) =
            [] :: splitCommas {} ([' '] ++ (Text.join ", " rest).toList) := by
          rw [(stays _).2, Nesting.eq_of_isTop closed]
          rfl
        have padded := isPadded_append blank (.inl rfl) text.toList
        rw [← List.append_assoc] at padded
        rw [joined, splitCommas_append (by rwa [(stays _).1]) behind]
        exact .cons padded (ih other later [' '] (.inr rfl) fun _ => ⟨rfl, rfl⟩)
      · exact other

theorem isTrimmed_join {separator : String} {texts : List String} (nonempty : texts ≠ [])
    (trimmed : ∀ text ∈ texts, Text.IsTrimmed text.toList) :
    Text.IsTrimmed (Text.join separator texts).toList := by
  induction texts using Text.join.induct with
  | case1 => exact absurd rfl nonempty
  | case2 text => exact trimmed text List.mem_cons_self
  | case3 text rest other ih =>
      obtain ⟨own, later⟩ := List.forall_mem_cons.mp trimmed
      rw [toList_join_cons other]
      exact own.append (ih other later) separator.toList

theorem exists_join_eq {separator : String} {texts : List String} (nonempty : texts ≠ []) :
    ∃ front, ∃ text ∈ texts, (Text.join separator texts).toList = front ++ text.toList := by
  induction texts using Text.join.induct with
  | case1 => exact absurd rfl nonempty
  | case2 text => exact ⟨[], text, List.mem_cons_self, rfl⟩
  | case3 text rest other ih =>
      obtain ⟨front, last, member, same⟩ := ih other
      refine ⟨text.toList ++ (separator.toList ++ front), last, List.mem_cons_of_mem text member, ?_⟩
      rw [toList_join_cons other, same]
      simp

section Clauses

variable {clause : Clause} (nonempty : clause.alternatives ≠ [])
  (written : ∀ c ∈ clause.alternatives, IsWritten c)

include nonempty written

theorem isTrimmed_clauseDisplay : Text.IsTrimmed clause.display.toList := by
  refine isTrimmed_join (List.map_eq_nil_iff.not.mpr nonempty) fun text member => ?_
  obtain ⟨c, inside, rfl⟩ := List.mem_map.mp member
  exact (written c inside).trimmed_display

omit written in
theorem stripQuotes_clauseDisplay :
    stripQuotes clause.display.toList = clause.display.toList := by
  have last : ∃ front, ∃ text ∈ clause.alternatives.map (·.display),
      clause.display.toList = front ++ text.toList :=
    exists_join_eq (List.map_eq_nil_iff.not.mpr nonempty)
  obtain ⟨front, text, member, same⟩ := last
  obtain ⟨c, -, rfl⟩ := List.mem_map.mp member
  have value : clause.display.toList = (front ++ c.operand.display.toList ++
      ' ' :: c.test.comparator.symbol.toList) ++ ' ' :: c.test.valueText := by
    rw [same, Comparison.toList_display]
    simp
  rw [value, stripQuotes_append_valueText]

/-- A clause is read back from its text as an equal one if its alternatives are shown as they are. -/
theorem exists_readClause_iff :
    (∃ d, readClause clause.display = .ok d ∧ (d == clause) = true) ↔
      ∀ c ∈ clause.alternatives, c.IsShown := by
  have whole : ∀ text ∈ clause.alternatives.map (·.display), IsWhole text.toList := by
    intro text member
    obtain ⟨c, inside, rfl⟩ := List.mem_map.mp member
    exact (written c inside).whole_display
  have parts :=
    forall₂_splitBars (List.map_eq_nil_iff.not.mpr nonempty) whole [] (.inl rfl)
  rw [List.forall₂_map_left_iff] at parts
  have reads := ((List.forall₂_and_left _ _).mpr ⟨written, parts⟩).imp
    fun c part h => exists_readComparison_iff h.1 h.2
  rw [← exists_mapM_beq_iff reads, readClause]
  simp only [map_eq_ok_iff]
  constructor
  · rintro ⟨_, ⟨cs, read, rfl⟩, equal⟩
    exact ⟨cs, read, equal⟩
  · rintro ⟨cs, read, equal⟩
    exact ⟨⟨cs⟩, ⟨cs, read, rfl⟩, equal⟩

end Clauses

theorem pairwise_of_beq {cs ds : List Clause} (h : (ds == cs) = true)
    (apart : cs.Pairwise fun a b => (b == a) = false) :
    ds.Pairwise fun a b => (b == a) = false := by
  rw [beq_iff_forall₂] at h
  induction h with
  | nil => exact .nil
  | @cons d c ds cs first later ih =>
      obtain ⟨own, others⟩ := List.pairwise_cons.mp apart
      refine List.pairwise_cons.mpr ⟨fun d' member => ?_, ih others⟩
      obtain ⟨c', member', equal⟩ := exists_of_mem_forall₂ later.flip member
      refine Bool.eq_false_iff.mpr fun same => ?_
      have equal' := Clause.beq_trans (Clause.beq_trans (Clause.beq_symm equal) same) first
      exact Bool.false_ne_true ((own c' member').symm.trans equal')

/-- No clauses are dropped exactly if the clauses equal some that differ. -/
theorem addClauses_beq_iff {cs ds : List Clause} (apart : cs.Pairwise fun a b => (b == a) = false)
    (length : ds.length = cs.length) :
    (addClauses [] ds == cs) = true ↔ (ds == cs) = true := by
  constructor
  · intro equal
    have kept : (addClauses [] ds).length = ds.length := by
      rw [length]
      exact (beq_iff_forall₂.mp equal).length_eq
    rwa [(addClauses_sublist [] ds).eq_of_length kept] at equal
  · intro equal
    have kept : addClauses [] ds = ds := addClauses_of_pairwise (pairwise_of_beq equal apart)
    rwa [kept]

/-- Whether only the commas between the clauses of a requirement separate in its text. -/
def isSeparated (p : Prerequisite) : Bool := areSeparated (p.clauses.map (·.display))

/-- The clauses that a requirement is divided into are those whose texts it has been put together
from. -/
theorem splitTopLevel_display {p : Prerequisite} (separated : p.isSeparated = true)
    (written : ∀ clause ∈ p.clauses,
      clause.alternatives ≠ [] ∧ ∀ c ∈ clause.alternatives, IsWritten c) :
    splitTopLevel p.display = p.clauses.map (·.display) := by
  obtain ⟨texts, same⟩ : ∃ texts, texts = p.clauses.map (·.display) := ⟨_, rfl⟩
  have bare : ∀ text ∈ texts,
      Text.IsTrimmed text.toList ∧ stripQuotes text.toList = text.toList := by
    intro text member
    rw [same] at member
    obtain ⟨clause, inside, rfl⟩ := List.mem_map.mp member
    obtain ⟨nonempty, all⟩ := written clause inside
    exact ⟨isTrimmed_clauseDisplay nonempty all, stripQuotes_clauseDisplay nonempty⟩
  rw [isSeparated, ← same] at separated
  rw [splitTopLevel, display, ← same]
  by_cases nonempty : texts = []
  · rw [nonempty]
    rfl
  · have parts := forall₂_splitCommas nonempty separated [] (.inl rfl)
    have read : List.Forall₂ Eq (texts.map (·.toList))
        ((splitCommas {} (Text.join ", " texts).toList).map fun part =>
          stripQuotes (Text.trimChars part)) := by
      rw [List.forall₂_map_left_iff, List.forall₂_map_right_iff]
      refine ((List.forall₂_and_left _ _).mpr ⟨bare, parts⟩).imp fun text part h => ?_
      rw [h.1.1.trimChars_eq h.2, h.1.2]
    rw [List.forall₂_eq_eq_eq] at read
    rw [← read, List.filter_eq_self.mpr]
    · simp
    · intro text member
      obtain ⟨text, inside, rfl⟩ := List.mem_map.mp member
      simpa using (bare text inside).1.ne_nil

/-- A requirement that has been read is read back from its text as an equal one if every comparison in
it is shown as it is; the commas that separate in its text must be those between its clauses. -/
theorem ofText_display {items : List String} {p : Prerequisite} (h : ofTexts items = .ok p)
    (separated : p.isSeparated = true) :
    (∃ q, ofText p.display = .ok q ∧ (q == p) = true) ↔
      ∀ clause ∈ p.clauses, ∀ c ∈ clause.alternatives, c.IsShown := by
  obtain ⟨written, apart⟩ := isWritten_of_ofTexts h
  have reads : List.Forall₂ (fun clause text =>
      (∃ d, readClause text = .ok d ∧ (d == clause) = true) ↔ ∀ c ∈ clause.alternatives, c.IsShown)
      p.clauses (p.clauses.map (·.display)) := by
    rw [List.forall₂_map_right_iff, List.forall₂_same]
    exact fun clause member => exists_readClause_iff (written clause member).1 (written clause member).2
  rw [← exists_mapM_beq_iff reads, ofText, ofTexts, List.flatMap_cons, List.flatMap_nil,
    List.append_nil, splitTopLevel_display separated written]
  constructor
  · rintro ⟨q, read, equal⟩
    obtain ⟨ds, reads, same⟩ := exists_of_bind_eq_ok read
    obtain rfl := Except.ok.inj same
    have length := (mapM_eq_ok_iff.mp reads).length_eq
    rw [List.length_map] at length
    exact ⟨ds, reads, (addClauses_beq_iff apart length.symm).mp equal⟩
  · rintro ⟨ds, read, equal⟩
    have length := (beq_iff_forall₂.mp equal).length_eq
    exact ⟨⟨addClauses [] ds⟩, by rw [read]; rfl, (addClauses_beq_iff apart length).mpr equal⟩

/-- A bound, a choice between having and lacking a feature, and a text with a comma in it. -/
def veteranHalfElf : Prerequisite :=
  ⟨[⟨[⟨.key "advances", .compare .ge (.number 4)⟩]⟩,
    ⟨[⟨.key "features.Block", .compare .ne (.number 0)⟩,
      ⟨.key "features.Brawler", .compare .eq (.number 0)⟩]⟩,
    ⟨[⟨.key "race", .compare .eq (.text "Half, Elf")⟩]⟩]⟩

/-- What is left out in the items is shown: the zeros of the attributes that stand alone. -/
theorem ofText_display_veteranHalfElf :
    ofTexts ["advances >= 4, features.Block || !features.Brawler", "race == \"Half, Elf\""] =
        .ok veteranHalfElf ∧
      veteranHalfElf.display =
        "advances >= 4, features.Block != 0 || features.Brawler == 0, race == 'Half, Elf'" ∧
      ∃ q, ofText veteranHalfElf.display = .ok q ∧ (q == veteranHalfElf) = true := by
  have read : ofTexts ["advances >= 4, features.Block || !features.Brawler",
      "race == \"Half, Elf\""] = .ok veteranHalfElf := rfl
  have separated : veteranHalfElf.isSeparated = true := by decide
  refine ⟨read, by decide, (ofText_display read separated).mpr ?_⟩
  intro clause member c alternative
  simp only [veteranHalfElf, List.mem_cons, List.not_mem_nil, or_false] at member
  rcases member with rfl | rfl | rfl
  · obtain rfl := List.mem_singleton.mp alternative
    exact ⟨rfl, by decide⟩
  · obtain rfl | rfl := List.mem_pair.mp alternative
    · exact ⟨rfl, by decide⟩
    · exact ⟨rfl, by decide⟩
  · obtain rfl := List.mem_singleton.mp alternative
    have plain : '\'' ∉ "Half, Elf".toList := by decide
    exact ⟨plain, by decide⟩

/-- The comparison of an attribute with a text that has a single quote. -/
def dragonsKin : Prerequisite := single ⟨.key "race", .compare .eq (.text "Dragon's Kin")⟩

/-- The backslash in front of a single quote and the quotes around the text are read as part of it. -/
theorem ofText_display_dragonsKin :
    ofTexts ["race == \"Dragon's Kin\""] = .ok dragonsKin ∧
      ¬∃ q, ofText dragonsKin.display = .ok q ∧ (q == dragonsKin) = true := by
  have shown : dragonsKin.display = "race == 'Dragon\\'s Kin'" := by decide
  have read : ofText "race == 'Dragon\\'s Kin'" =
      .ok (single ⟨.key "race", .compare .eq (.text "'Dragon\\'s Kin'")⟩) := rfl
  refine ⟨rfl, ?_⟩
  rintro ⟨q, same, equal⟩
  rw [shown, read] at same
  cases same
  exact absurd equal (by decide)

end CharacterRules.Prerequisite
