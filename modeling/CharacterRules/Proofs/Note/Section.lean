import CharacterRules.Note.Render
import CharacterRules.Proofs.Note.Part
import Mathlib.Data.List.Nodup

/-!
Sections of the notes of a trait. The keys of notes and of their numbered parts are told apart by section
and number, and by nothing else. So notes of different sections leave each other alone, while of the notes
of one section only the last is kept, and parts with one number are computed into one attribute.
-/

namespace CharacterRules

/-- Whether a rule gives its target a value or holds it back; the others change the value. -/
def Rule.givesValue (r : Rule) : Bool := r.op == .set || r.op == .gate

theorem Rule.givesValue_congr {r s : Rule} (h : (r == s) = true) : r.givesValue = s.givesValue := by
  rw [givesValue, givesValue, (Rule.beq_iff.mp h).2.2.1]

namespace RuleGraph

/-- The rules that give a key its value or hold it back. -/
def valueRules (g : RuleGraph) (key : String) : List Rule := (g.rulesFor key).filter Rule.givesValue

end RuleGraph

namespace Note

/-- Parts with increasing numbers between two bounds. -/
structure AreNumbered (first next : Nat) (parts : List Part) : Prop where
  le : first ≤ next
  within : ∀ x ∈ parts, first ≤ x.number ∧ x.number < next
  increasing : parts.Pairwise fun x y => x.number < y.number

namespace AreNumbered

theorem nil {first next : Nat} (le : first ≤ next) : AreNumbered first next [] :=
  ⟨le, List.forall_mem_nil _, .nil⟩

theorem append {first middle next : Nat} {parts more : List Part} (h : AreNumbered first middle parts)
    (h' : AreNumbered middle next more) : AreNumbered first next (parts ++ more) := by
  refine ⟨h.le.trans h'.le, fun x member => ?_, ?_⟩
  · cases List.mem_append.mp member with
    | inl early => exact ⟨(h.within x early).1, (h.within x early).2.trans_le h'.le⟩
    | inr late => exact ⟨h.le.trans (h'.within x late).1, (h'.within x late).2⟩
  · refine List.pairwise_append.mpr ⟨h.increasing, h'.increasing, fun x early y late => ?_⟩
    exact (h.within x early).2.trans_le (h'.within y late).1

end AreNumbered

theorem areNumbered_outlinePieces (next : Nat) (pieces : List Piece) :
    AreNumbered next (outlinePieces next pieces).2.1 (outlinePieces next pieces).1 := by
  induction pieces generalizing next with
  | nil => exact .nil (Nat.le_refl next)
  | cons piece rest ih =>
      cases piece with
      | text s => exact ih next
      | placeholder expression =>
          rw [outlinePieces]
          split
          · exact .nil (Nat.le_succ next)
          · rename_i e parsed
            have first : AreNumbered next (next + 1)
                [⟨next, piecesLength (.placeholder expression :: rest), expression, e⟩] := by
              refine ⟨Nat.le_succ next, fun x own => ?_, List.pairwise_singleton _ _⟩
              obtain rfl := List.mem_singleton.mp own
              exact ⟨Nat.le_refl next, Nat.lt_succ_self next⟩
            exact first.append (ih (next + 1))

theorem areNumbered_outlineClause (phrasings : List Phrasing) (c : Context) (clause : List Char) :
    AreNumbered c.next (outlineClause phrasings c clause).next
      (outlineClause phrasings c clause).parts := by
  rw [outlineClause]
  cases found : phrasings.findSome? fun f => f.outline? c clause with
  | none => exact .nil (Nat.le_refl _)
  | some o =>
      obtain ⟨phrasing, -, outlined⟩ := List.exists_of_findSome?_eq_some found
      cases phrasing with
      | count =>
          obtain ⟨_, -, rfl⟩ := Option.map_eq_some_iff.mp outlined
          exact .nil (Nat.le_refl _)
      | expression =>
          rw [Phrasing.outline?] at outlined
          split at outlined
          · cases outlined
            exact areNumbered_outlinePieces c.next _
          · cases outlined
      | delta =>
          obtain ⟨_, -, rfl⟩ := Option.map_eq_some_iff.mp outlined
          exact .nil (Nat.le_refl _)

theorem exists_areNumbered_outlines (phrasings : List Phrasing) (c : Context)
    (clauses : List (List Char)) :
    ∃ next, AreNumbered c.next next ((outlines phrasings c clauses).flatMap (·.parts)) := by
  induction clauses generalizing c with
  | nil => exact ⟨c.next, .nil (Nat.le_refl _)⟩
  | cons clause rest ih =>
      obtain ⟨next, later⟩ := ih { c with next := (outlineClause phrasings c clause).next }
      exact ⟨next, (areNumbered_outlineClause phrasings c clause).append later⟩

section

variable (phrasings : List Phrasing) (name : String)

/-- The parts of the notes of a trait, each with the section of its note. -/
def sectionParts (notes : List (String × String)) : List (String × Part) :=
  notes.flatMap fun note => (partsOf phrasings name note).map (note.1, ·)

/-- The key that a part of a trait is computed under. -/
def keyOf (x : String × Part) : String := partKey (noteKey x.1 name) x.2.number

/-- Two parts of a trait have one key exactly if they have section and number in common. -/
theorem nodup_keys_iff {parts : List (String × Part)} :
    (parts.map (keyOf name)).Nodup ↔ (parts.map fun x => (x.1, x.2.number)).Nodup := by
  have injective : Function.Injective
      fun x : String × Nat => partKey (noteKey x.1 name) x.2 := by
    rintro ⟨category, number⟩ ⟨category', number'⟩ same
    obtain ⟨keys, rfl⟩ := eq_of_partKey_eq same
    exact congrArg (·, number) (noteKey_inj keys)
  have composed : parts.map (keyOf name) =
      (parts.map fun x => (x.1, x.2.number)).map fun x => partKey (noteKey x.1 name) x.2 := by
    rw [List.map_map]
    rfl
  rw [composed, List.nodup_map_iff injective]

/-- Sections that are all different keep the parts of their notes apart. -/
theorem nodup_keys_of_nodup {notes : List (String × String)} (distinct : (notes.map Prod.fst).Nodup) :
    ((sectionParts phrasings name notes).map (keyOf name)).Nodup := by
  rw [nodup_keys_iff, sectionParts, List.map_flatMap, List.nodup_flatMap]
  constructor
  · intro note _
    obtain ⟨next, numbered⟩ := exists_areNumbered_outlines phrasings
      (contextOf name note.1 note.2) (clausesOf note.2)
    rw [List.map_map]
    refine List.pairwise_map.mpr (numbered.increasing.imp fun {x y} lower same => ?_)
    exact Nat.ne_of_lt lower (congrArg Prod.snd same)
  · refine (List.pairwise_map.mp distinct).imp fun {note other} differ x member member' => ?_
    obtain ⟨_, part, rfl⟩ := List.mem_map.mp member
    obtain ⟨_, part', same⟩ := List.mem_map.mp member'
    obtain ⟨_, -, rfl⟩ := List.mem_map.mp part
    obtain ⟨_, -, rfl⟩ := List.mem_map.mp part'
    exact differ (congrArg Prod.fst same).symm

theorem getElem?_notes_keepNotes (g : RuleGraph) (notes : List (String × String))
    (category : String) : (keepNotes g name notes).notes[noteKey category name]? =
      ((notes.filter (·.1 == category)).getLast?.map Prod.snd).or
        g.notes[noteKey category name]? := by
  induction notes generalizing g with
  | nil => rfl
  | cons note rest ih =>
      have kept : (g.defineNote (noteKey note.1 name) note.2).notes[noteKey category name]? =
          if note.1 == category then some note.2 else g.notes[noteKey category name]? := by
        rw [RuleGraph.defineNote, Std.TreeMap.getElem?_insert]
        by_cases own : note.1 = category
        · rw [own, if_pos (compare_eq_iff_eq.mpr rfl), if_pos (beq_self_eq_true _)]
        · rw [if_neg fun same => own (noteKey_inj (compare_eq_iff_eq.mp same)),
            if_neg (by simpa using own)]
      refine (ih _).trans ?_
      rw [kept, List.filter_cons]
      split
      · rw [List.getLast?_cons]
        cases (rest.filter (·.1 == category)).getLast? <;> rfl
      · rfl

/-- The rules that notes register at once: one for each note, and those of its parts. -/
theorem onto_rulesOf (notes : List (String × String)) (category : String) (number : Nat) :
    RuleGraph.onto (partKey (noteKey category name) number)
        (notes.flatMap (rulesOf phrasings name)) =
      RuleGraph.onto (partKey (noteKey category name) number)
        ((sectionParts phrasings name notes).flatMap fun x =>
          placeholderRules (keyOf name x) ("features." ++ name) x.2.formula) := by
  rw [sectionParts, List.flatMap_assoc, RuleGraph.onto, RuleGraph.onto, List.filter_flatMap,
    List.filter_flatMap]
  refine List.flatMap_congr fun note _ => ?_
  have shown : ¬ (shownRule name note).target == partKey (noteKey category name) number :=
    fun same => noteKey_ne_partKey note.1 name category number (beq_iff_eq.mp same)
  rw [rulesOf, List.filter_cons_of_neg (p := fun r : Rule => r.target == _) shown, partRules,
    List.flatMap_map]
  rfl

/-- Changes are merged into what a key has: they do not give it its value. -/
theorem givesValue_of_mem_changesOf {names : TargetNames} {g : RuleGraph}
    {notes : List (String × String)} {d : PendingDelta}
    (changed : d ∈ changesOf phrasings names g name notes) : d.rule.givesValue = false := by
  obtain ⟨note, -, w, worded, -, -, same⟩ := exists_of_mem_changesOf changed
  have op : d.rule.op = w.op := same.symm
  rw [Rule.givesValue, op]
  rcases op_of_mem_wordingsOf worded with increased | multiplied
  · rw [increased]
    rfl
  · rw [multiplied]
    rfl

/-- What gives a part its value, if no other part has its key, are the rules of its expression. -/
theorem valueRules_compileNotes (names : TargetNames) {notes : List (String × String)}
    (distinct : ((sectionParts phrasings name notes).map (keyOf name)).Nodup) {x : String × Part}
    (member : x ∈ sectionParts phrasings name notes) :
    (compileNotes phrasings {} names name notes).valueRules (keyOf name x) =
      placeholderRules (keyOf name x) ("features." ++ name) x.2.formula := by
  have changes : (RuleGraph.onto (keyOf name x)
      ((changesOf phrasings names {} name notes).map PendingDelta.rule)).filter
        Rule.givesValue = [] := by
    refine List.filter_eq_nil_iff.mpr fun r onto => ?_
    obtain ⟨d, changed, rfl⟩ := List.mem_map.mp (List.mem_filter.mp onto).1
    exact Bool.eq_false_iff.mp (givesValue_of_mem_changesOf phrasings name changed)
  have given : ∀ r ∈ placeholderRules (keyOf name x) ("features." ++ name) x.2.formula,
      r.givesValue = true := by
    intro r own
    cases List.mem_cons.mp own with
    | inl gate => rw [gate]; rfl
    | inr set =>
        obtain ⟨s, -, rfl⟩ := List.mem_map.mp set
        rfl
  have parts : (RuleGraph.onto (keyOf name x) (notes.flatMap (rulesOf phrasings name))).filter
      Rule.givesValue = placeholderRules (keyOf name x) ("features." ++ name) x.2.formula := by
    have own := RuleGraph.onto_flatMap_of_nodup
      (fun x => placeholderRules (keyOf name x) ("features." ++ name) x.2.formula)
      (fun y r given => target_of_mem_placeholderRules given) distinct member
    rw [keyOf] at own given ⊢
    rw [onto_rulesOf, own]
    exact List.filter_eq_self.mpr given
  rw [RuleGraph.onto] at changes parts
  rw [compileNotes_eq, RuleGraph.valueRules, rulesFor_keepNotes,
    RuleGraph.consistent_empty.rulesFor_defineAll,
    RuleGraph.filter_foldl_register Rule.givesValue_congr, RuleGraph.onto, List.filter_append,
    List.filter_append, parts, changes, List.append_nil]
  exact RuleGraph.foldl_register_of_pairwise (pairwise_placeholderRules _ _ x.2.formula)

/-- Each note is kept exactly if the notes of one section have one text. -/
theorem getElem?_notes_compileNotes_iff (names : TargetNames) (notes : List (String × String)) :
    (∀ note ∈ notes,
        (compileNotes phrasings {} names name notes).notes[noteKey note.1 name]? = some note.2) ↔
      ∀ note ∈ notes, ∀ other ∈ notes, note.1 = other.1 → note.2 = other.2 := by
  have kept : ∀ category, (compileNotes phrasings {} names name notes).notes[noteKey category name]? =
      (notes.filter (·.1 == category)).getLast?.map Prod.snd := by
    intro category
    rw [compileNotes_eq, getElem?_notes_keepNotes, RuleGraph.notes_defineAll]
    exact Option.or_none
  simp only [kept]
  constructor
  · intro found note member other member' same
    have own := found note member
    rw [same, found other member'] at own
    exact (Option.some.inj own).symm
  · intro one note member
    have own : note ∈ notes.filter (·.1 == note.1) := List.mem_filter.mpr ⟨member, by simp⟩
    have nonempty := List.ne_nil_of_mem own
    obtain ⟨last, section'⟩ := List.mem_filter.mp (List.getLast_mem nonempty)
    rw [List.getLast?_eq_some_getLast nonempty, Option.map_some,
      one note member _ last (beq_iff_eq.mp section').symm]

end

/-- Compiled into an empty graph, notes are all kept exactly if those of one section have one text, and
parts have keys of their own exactly if no two have section and number in common; then nothing but its own
expression gives a part its value. Sections that are all different have both. -/
theorem compileFeature_sections (phrasings : List Phrasing) (names : TargetNames) (name : String)
    {sections notes : List String} (paired : sections.length = notes.length) :
    ∃ g, compileFeature phrasings {} names name sections notes = .ok g ∧
      ((∀ note ∈ sections.zip notes, g.notes[noteKey note.1 name]? = some note.2) ↔
        ∀ note ∈ sections.zip notes, ∀ other ∈ sections.zip notes,
          note.1 = other.1 → note.2 = other.2) ∧
      (((sectionParts phrasings name (sections.zip notes)).map (keyOf name)).Nodup ↔
        ((sectionParts phrasings name (sections.zip notes)).map fun x => (x.1, x.2.number)).Nodup) ∧
      (((sectionParts phrasings name (sections.zip notes)).map (keyOf name)).Nodup →
        ∀ x ∈ sectionParts phrasings name (sections.zip notes), g.valueRules (keyOf name x) =
          placeholderRules (keyOf name x) ("features." ++ name) x.2.formula) ∧
      (sections.Nodup →
        (∀ note ∈ sections.zip notes, g.notes[noteKey note.1 name]? = some note.2) ∧
        ((sectionParts phrasings name (sections.zip notes)).map (keyOf name)).Nodup) := by
  have names_sections : (sections.zip notes).map Prod.fst = sections := List.map_fst_zip paired.le
  have texts := getElem?_notes_compileNotes_iff phrasings name names (sections.zip notes)
  refine ⟨compileNotes phrasings {} names name (sections.zip notes), ?_, texts,
    nodup_keys_iff name, fun distinct x member => ?_, fun distinct => ⟨texts.mpr ?_, ?_⟩⟩
  · rw [compileFeature, if_neg (not_not.mpr paired)]
  · exact valueRules_compileNotes phrasings name names distinct member
  · rw [← names_sections] at distinct
    intro note member other member' same
    exact congrArg Prod.snd (List.inj_on_of_nodup_map distinct member member' same)
  · exact nodup_keys_of_nodup phrasings name (names_sections.symm ▸ distinct)

def defenseNames : TargetNames := (({} : TargetNames).addStat "parry").addStat "toughness"

def defenseNotes : List String := ["+%{level} Parry", "+%{strength} Toughness"]

theorem compileFeature_twoSections : ["combat", "skill"].length = defenseNotes.length ∧
    ["combat", "skill"].Nodup ∧
    ∃ g, compileFeature standardPhrasings {} defenseNames "Foo" ["combat", "skill"] defenseNotes =
        .ok g ∧
      g.notes["combatNotes.foo"]? = some "+%{level} Parry" ∧
      ∃ e, Formula.parse "strength" = .ok e ∧
        g.valueRules "skillNotes.foo.1" = placeholderRules "skillNotes.foo.1" "features.Foo" e := by
  have paired : ["combat", "skill"].length = defenseNotes.length := rfl
  have distinct : ["combat", "skill"].Nodup := by decide
  obtain ⟨g, compiled, -, -, computed, apart⟩ :=
    compileFeature_sections standardPhrasings defenseNames "Foo" paired
  obtain ⟨texts, keys⟩ := apart distinct
  have combat : noteKey "combat" "Foo" = "combatNotes.foo" := by decide +kernel
  obtain ⟨x, member, skill, first, text⟩ : ∃ x ∈ sectionParts standardPhrasings "Foo"
      (["combat", "skill"].zip defenseNotes),
        x.1 = "skill" ∧ x.2.number = 1 ∧ x.2.text = "strength" := by decide +kernel
  obtain ⟨note, noted, part⟩ := List.mem_flatMap.mp member
  obtain ⟨y, own, rfl⟩ := List.mem_map.mp part
  have key : keyOf "Foo" (note.1, y) = "skillNotes.foo.1" := by
    rw [keyOf, skill, first]
    decide +kernel
  have rules := computed keys _ member
  rw [key] at rules
  refine ⟨paired, distinct, g, compiled, ?_, y.formula, text ▸ parse_of_mem_partsOf own, rules⟩
  exact combat ▸ texts ("combat", "+%{level} Parry") List.mem_cons_self

/-- Two notes of one section. -/
def sharedGraph : RuleGraph :=
  compileNotes standardPhrasings {} defenseNames "Foo" (["combat", "combat"].zip defenseNotes)

def sharedSelection : Selection :=
  {("features.Foo", .number 1), ("level", .number 3), ("strength", .number 8)}

/-- The first of two notes in one section is lost, and the second one shows and adds the value of the
placeholder of the first. -/
theorem compileFeature_sharedSection :
    compileFeature standardPhrasings {} defenseNames "Foo" ["combat", "combat"] defenseNotes =
      .ok sharedGraph ∧
    sharedGraph.notes["combatNotes.foo"]? = some "+%{strength} Toughness" ∧
    (sectionParts standardPhrasings "Foo" (["combat", "combat"].zip defenseNotes)).map
        (fun x => (keyOf "Foo" x, x.2.text)) =
      [("combatNotes.foo.1", "level"), ("combatNotes.foo.1", "strength")] ∧
    (sharedGraph.evaluate sharedSelection)["toughness"]? = some (.number 3) ∧
    render "+%{strength} Toughness" "combatNotes.foo" (sharedGraph.evaluate sharedSelection) =
      some "+3 Toughness" := by
  exact ⟨rfl, by decide +kernel, by decide +kernel, by decide +kernel, by decide +kernel⟩

end Note
end CharacterRules
