import CharacterRules.Note.Compiler
import CharacterRules.Proofs.Rule.History
import Mathlib.Logic.Relation

/-!
What the compilation of notes can do. All phrasings come down to three kinds of steps: the attribute
that shows the note is registered, a numbered part of it is computed, or a change of an attribute is
put among those that wait. What each of them keeps, the compilation of a whole trait keeps.
-/

namespace CharacterRules.Note

theorem singleton_eq_toString {c : Char} (h : '1' ≤ c ∧ c ≤ '9') :
    String.singleton c = toString (c.toNat - 48) := by
  have digits : ∀ k < 58, 49 ≤ k → String.singleton (Char.ofNat k) = toString (k - 48) := by
    decide
  have digit := digits c.toNat (Nat.lt_succ_of_le h.2) h.1
  rwa [Char.ofNat_toNat] at digit

/-- Whether a clause counts powers by the part of the note that a small letter stands for. -/
def CountsSmall (clause : List Char) : Prop :=
  ∃ counted, readCount? clause = some (.reference 'v', counted)

/-- The marks of an amount refer to the value of the note, to a numbered part of it or, where that
is allowed, to the part that a small letter stands for. -/
def AmountText.IsValid (small : Prop) (text : AmountText) : Prop :=
  ∀ mark, text = .reference mark → isReferenceMark false mark = true ∨ mark = 'v' ∧ small

theorem isValid_digits (small : Prop) (text : String) : (AmountText.digits text).IsValid small :=
  nofun

theorem isValid_reference {small : Prop} {mark : Char} (h : isReferenceMark false mark = true) :
    (AmountText.reference mark).IsValid small := by
  intro other same
  cases same
  exact .inl h

theorem isValid_of_readCount? {clause : List Char} {text : AmountText} {counted : Counted}
    (h : readCount? clause = some (text, counted)) : text.IsValid (CountsSmall clause) := by
  have valid : ∀ mark, text = .reference mark → isReferenceMark true mark = true := by
    delta readCount? at h
    dsimp only at h
    have tail : ∀ {amount : AmountText} {rest : List Char} {read : List Char → Option Counted},
        ((skipSpaces? rest).bind fun rest => (read rest).bind fun counted =>
          some (amount, counted)) = some (text, counted) → amount = text := by
      intro amount rest read h
      obtain ⟨after, -, h⟩ := Option.bind_eq_some_iff.mp h
      obtain ⟨what, -, h⟩ := Option.bind_eq_some_iff.mp h
      exact (Prod.mk.inj (Option.some.inj h)).1
    rintro mark rfl
    split at h
    · split at h
      · rename_i marks
        cases tail h
        exact marks
      · cases h
    · split at h
      · cases h
      · cases tail h
  intro mark same
  have marks := valid mark same
  rw [isReferenceMark, Bool.true_and, Bool.or_right_comm, Bool.or_eq_true, beq_iff_eq] at marks
  rcases marks with known | rfl
  · refine .inl ?_
    rwa [isReferenceMark, Bool.false_and, Bool.or_false]
  · exact .inr ⟨rfl, counted, same ▸ h⟩

theorem isValid_of_readAmount? {small : Prop} {text rest : List Char} {amount : AmountText}
    (h : readAmount? text = some (amount, rest)) : amount.IsValid small := by
  delta readAmount? at h
  split at h
  · split at h
    · rename_i marks
      cases h
      exact isValid_reference marks
    · cases h
  · split at h
    · cases h
    · split at h
      · cases h
      · cases h
        exact isValid_digits small _
    · cases h
      exact isValid_digits small _

theorem isValid_of_readDelta? {small : Prop} {clause : List Char} {d : Delta}
    (h : readDelta? clause = some d) : d.amount.IsValid small := by
  delta readDelta? at h
  dsimp only at h
  have tail : ∀ {change : Change} {text : List Char}, ((readAmount? text).bind fun x =>
      (skipSpaces? x.2).bind fun phrase =>
        if phrase.isEmpty || phrase.contains '\n' then none
        else some (Delta.mk change x.1 (String.ofList
          (if 2 ≤ phrase.length && phrase.getLast? == some '.' then phrase.dropLast
            else phrase)))) = some d → d.amount.IsValid small := by
    intro change text h
    obtain ⟨x, read, h⟩ := Option.bind_eq_some_iff.mp h
    obtain ⟨phrase, -, h⟩ := Option.bind_eq_some_iff.mp h
    split at h
    · cases h
    · cases h
      exact isValid_of_readAmount? read
  split at h
  · exact tail h
  · exact tail h
  · exact tail h
  · cases h

/-- The sources of changes that a note can word: the feature, the note, its numbered parts and,
where that is allowed, the part that a small letter stands for. -/
inductive IsSource (key feature : String) (small : Prop) : String → Prop where
  | feature : IsSource key feature small feature
  | note : IsSource key feature small key
  | part (number : Nat) : IsSource key feature small (partKey key number)
  | small (allowed : small) : IsSource key feature small (key ++ ".v")

theorem Context.isSource_amount (c : Context) {small : Prop} {text : AmountText}
    (valid : text.IsValid small) : IsSource c.key c.feature small (c.amount text).1 := by
  cases text with
  | digits text => exact .feature
  | reference mark =>
      rcases valid mark rfl with marks | ⟨rfl, allowed⟩
      · simp only [isReferenceMark, Bool.false_and, Bool.or_false, Bool.or_eq_true, beq_iff_eq,
          Bool.and_eq_true, decide_eq_true_eq] at marks
        rcases marks with rfl | digit
        · exact .note
        · have other : mark ≠ 'V' := by
            rintro rfl
            exact absurd digit.2 (by decide)
          rw [amount, singleton_eq_toString digit]
          · exact .part _
          · exact other
      · show IsSource c.key c.feature small (c.key ++ "." ++ "v")
        rw [String.append_assoc]
        exact .small allowed

/-- Merging keeps the target, the source and the operator of the changes that wait. -/
theorem PendingDelta.exists_of_mem_push {d e : PendingDelta} {waiting : List PendingDelta}
    (h : e ∈ d.push waiting) : ∃ old, (old = d ∨ old ∈ waiting) ∧
      e.target = old.target ∧ e.source = old.source ∧ e.op = old.op := by
  induction waiting with
  | nil =>
      rw [push, List.mem_singleton] at h
      exact ⟨e, .inl h, rfl, rfl, rfl⟩
  | cons first rest ih =>
      rw [push] at h
      split at h
      · cases List.mem_cons.mp h with
        | inl eq =>
            obtain rfl := eq
            exact ⟨first, .inr List.mem_cons_self, rfl, rfl, rfl⟩
        | inr later => exact ⟨e, .inr (List.mem_cons_of_mem first later), rfl, rfl, rfl⟩
      · cases List.mem_cons.mp h with
        | inl eq =>
            obtain rfl := eq
            exact ⟨e, .inr List.mem_cons_self, rfl, rfl, rfl⟩
        | inr later =>
            obtain ⟨old, origin, slot⟩ := ih later
            exact ⟨old, origin.imp_right (List.mem_cons_of_mem first), slot⟩

theorem target_of_mem_placeholderRules {part feature : String} {e : Expr} {r : Rule}
    (h : r ∈ placeholderRules part feature e) : r.target = part := by
  cases List.mem_cons.mp h with
  | inl eq =>
      obtain rfl := eq
      rfl
  | inr later =>
      obtain ⟨s, -, rfl⟩ := List.mem_map.mp later
      rfl

/-- A step of the compilation of the note under a key. -/
inductive Step (names : TargetNames) (key feature : String) (small : Prop) :
    Progress → Progress → Prop where
  | shows (p : Progress) (op : Operator) (note : String) :
      Step names key feature small p
        { p with graph := (p.graph.define ⟨key, feature, op, .passThrough⟩).defineNote key note }
  | computes (p : Progress) (number : Nat) (e : Expr) :
      Step names key feature small p
        { p with graph := p.graph.defineAll (placeholderRules (partKey key number) feature e) }
  | changes (p : Progress) (d : PendingDelta) (source : IsSource key feature small d.source)
      (op : d.op ≠ .gate) (target : d.target = "powerCount" ∨ d.target = "powerPoints" ∨
        ∃ phrase, names.canonicalize p.graph phrase = some d.target) :
      Step names key feature small p (p.pushDelta d)

abbrev Steps (names : TargetNames) (key feature : String) (small : Prop) :
    Progress → Progress → Prop :=
  Relation.ReflTransGen (Step names key feature small)

/-- What each step keeps, a run of steps keeps. -/
theorem of_run {R S : Progress → Progress → Prop} (refl : ∀ p, S p p)
    (trans : ∀ {p q r}, S p q → S q r → S p r) (each : ∀ p p', R p p' → S p p')
    {p p' : Progress} (h : Relation.ReflTransGen R p p') : S p p' := by
  induction h with
  | refl => exact refl p
  | tail _ last ih => exact trans ih (each _ _ last)

variable (names : TargetNames) {small : Prop}

theorem Progress.steps_applyDelta (p : Progress) (c : Context) (clause : List Char) :
    Steps names c.key c.feature small p (p.applyDelta names c clause) := by
  rw [applyDelta]
  split
  · rename_i d found
    obtain ⟨delta, read, pending⟩ := Option.bind_eq_some_iff.mp found
    obtain ⟨target, named, rfl⟩ := Option.map_eq_some_iff.mp pending
    have source : IsSource c.key c.feature small (c.amount delta.amount).1 :=
      c.isSource_amount (isValid_of_readDelta? read)
    refine .single ?_
    cases delta.change with
    | increase => exact .changes p _ source nofun (.inr (.inr ⟨_, named⟩))
    | decrease => exact .changes p _ source nofun (.inr (.inr ⟨_, named⟩))
    | multiply => exact .changes p _ source nofun (.inr (.inr ⟨_, named⟩))
  · exact .refl

theorem Progress.steps_placeholders (p : Progress) (c : Context) (pieces : List Piece) :
    Steps names c.key c.feature small p (p.placeholders c pieces).1 ∧
      (p.placeholders c pieces).2.1.key = c.key ∧
      (p.placeholders c pieces).2.1.feature = c.feature := by
  induction pieces generalizing p c with
  | nil => exact ⟨.refl, rfl, rfl⟩
  | cons piece rest ih =>
      cases piece with
      | text s => exact ih p c
      | placeholder expression =>
          rw [placeholders]
          dsimp only
          split
          · exact ⟨.refl, rfl, rfl⟩
          · rename_i e parsed
            obtain ⟨later, same⟩ := ih
              { p with
                graph := p.graph.defineAll
                  (placeholderRules (partKey c.key c.next) c.feature e) }
              { c with next := c.next + 1 }
            exact ⟨.head (.computes p c.next e) later, same⟩

theorem Phrasing.steps_compile? {phrasing : Phrasing} {p p' : Progress} {c c' : Context}
    {clause : List Char} (counts : CountsSmall clause → small)
    (h : phrasing.compile? names p c clause = some (p', c')) :
    Steps names c.key c.feature small p p' ∧ c'.key = c.key ∧ c'.feature = c.feature := by
  cases phrasing with
  | count =>
      obtain ⟨⟨text, counted⟩, read, result⟩ := Option.map_eq_some_iff.mp h
      cases result
      have source : IsSource c.key c.feature small (c.amount text).1 := by
        refine c.isSource_amount fun mark same => ?_
        exact (isValid_of_readCount? read mark same).imp_right (.imp_right counts)
      refine ⟨.single ?_, rfl, rfl⟩
      cases counted with
      | powers => exact .changes p _ source nofun (.inl rfl)
      | powerPoints => exact .changes p _ source nofun (.inr (.inl rfl))
  | expression =>
      rw [compile?] at h
      split at h
      · cases h
        obtain ⟨placed, key, feature⟩ := p.steps_placeholders names c (pieces clause)
        refine ⟨?_, key, feature⟩
        -- the placeholders come first, then the change of the clause if all are formulas
        cases (p.placeholders c (pieces clause)).2.2 with
        | none => exact placed
        | some text =>
            refine placed.trans ?_
            rw [← key, ← feature]
            exact Progress.steps_applyDelta names _ _ text
      · cases h
  | delta =>
      rw [compile?] at h
      split at h
      · cases h
        exact ⟨p.steps_applyDelta names c clause, rfl, rfl⟩
      · cases h

theorem steps_compileClause (phrasings : List Phrasing) (p : Progress) (c : Context)
    (clause : List Char) (counts : CountsSmall clause → small) :
    Steps names c.key c.feature small p (compileClause phrasings names p c clause).1 ∧
      (compileClause phrasings names p c clause).2.key = c.key ∧
      (compileClause phrasings names p c clause).2.feature = c.feature := by
  rw [compileClause]
  cases found : phrasings.findSome? fun f => f.compile? names p c clause with
  | none => exact ⟨.refl, rfl, rfl⟩
  | some result =>
      obtain ⟨phrasing, -, compiled⟩ := List.exists_of_findSome?_eq_some found
      exact Phrasing.steps_compile? names counts compiled

theorem steps_clauses (phrasings : List Phrasing) (clauses : List (List Char)) (p : Progress)
    (c : Context) (counts : ∀ clause ∈ clauses, CountsSmall clause → small) :
    Steps names c.key c.feature small p
      (clauses.foldl (fun (p, c) clause => compileClause phrasings names p c clause) (p, c)).1 := by
  induction clauses generalizing p c with
  | nil => exact .refl
  | cons clause rest ih =>
      obtain ⟨first, key, feature⟩ :=
        steps_compileClause names phrasings p c clause (counts clause List.mem_cons_self)
      have later := ih (compileClause phrasings names p c clause).1
        (compileClause phrasings names p c clause).2
        fun clause member => counts clause (List.mem_cons_of_mem _ member)
      rw [key, feature] at later
      exact first.trans later

/-- Whether a clause of a note counts powers by the part that a small letter stands for. -/
def NoteCountsSmall (note : String) : Prop := ∃ clause ∈ clausesOf note, CountsSmall clause

/-- The compilation of a note first shows the note and then takes steps for its clauses. -/
theorem exists_steps_compileNote (phrasings : List Phrasing) (name feature : String)
    (p : Progress) (category note : String) : ∃ m,
      m.graph.notes[noteKey category name]? = some note ∧
      Step names (noteKey category name) feature (NoteCountsSmall note) p m ∧
      Steps names (noteKey category name) feature (NoteCountsSmall note) m
        (compileNote phrasings names name feature p category note) := by
  refine ⟨_, ?_, .shows p (if showsValue note then .gate else .set) note,
    steps_clauses names phrasings (clausesOf note) _
      ⟨noteKey category name, feature, firstPlaceholder note.toList⟩
      fun clause member counts => ⟨clause, member, counts⟩⟩
  exact Std.TreeMap.getElem?_insert_self

/-- The compilation of notes takes steps for each of them. -/
theorem steps_notes (phrasings : List Phrasing) (name feature : String)
    (notes : List (String × String)) (p : Progress) :
    Relation.ReflTransGen (fun p p' => ∃ note ∈ notes,
        Step names (noteKey note.1 name) feature (NoteCountsSmall note.2) p p') p
      (notes.foldl (fun p (category, note) =>
        compileNote phrasings names name feature p category note) p) := by
  induction notes generalizing p with
  | nil => exact .refl
  | cons note rest ih =>
      obtain ⟨m, -, first, steps⟩ :=
        exists_steps_compileNote names phrasings name feature p note.1 note.2
      refine .trans ((Relation.ReflTransGen.head first steps).lift id fun _ _ step => ?_)
        ((ih _).lift id fun _ _ later => ?_)
      · exact ⟨note, List.mem_cons_self, step⟩
      · obtain ⟨n, member, step⟩ := later
        exact ⟨n, List.mem_cons_of_mem note member, step⟩

theorem Step.built {names : TargetNames} {key feature : String} {p p' : Progress}
    (h : Step names key feature small p p') (built : p.graph.Built) : p'.graph.Built := by
  cases h with
  | shows op note => exact (built.define ⟨key, feature, op, .passThrough⟩).apply (.note key note)
  | computes number e => exact built.defineAll _
  | changes d source op target => exact built

theorem built_of_compileFeature {names : TargetNames} {phrasings : List Phrasing}
    {g g' : RuleGraph} {name : String} {categories notes : List String} (built : g.Built)
    (h : compileFeature phrasings g names name categories notes = .ok g') : g'.Built := by
  rw [compileFeature] at h
  split at h
  · cases h
  · cases h
    refine RuleGraph.Built.defineAll ?_ _
    refine of_run (S := fun p p' => p.graph.Built → p'.graph.Built) (fun _ => id)
      (fun first second built => second (first built)) ?_
      (steps_notes names phrasings name ("features." ++ name) (categories.zip notes) ⟨g, []⟩) built
    rintro p p' ⟨note, -, step⟩
    exact step.built

end CharacterRules.Note
