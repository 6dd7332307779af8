import CharacterRules.Proofs.Note.Step
import CharacterRules.Proofs.Note.Target

/-!
Outlines of notes. What the compilation of notes registers can be told from their text alone, but for
the attributes that phrases name: first a list of rules, then one rule for each attribute that is
changed. As the keys of notes and of their parts have a point and no phrase names such a key, it does
not matter how far the compilation has come when a phrase is looked up.
-/

namespace CharacterRules.Note

/-- What a change is of: a fixed attribute, or the one that a phrase names. -/
inductive Place where
  | fixed (key : String)
  | named (phrase : String)

def Place.key? (names : TargetNames) (g : RuleGraph) : Place → Option String
  | .fixed key => some key
  | .named phrase => names.canonicalize g phrase

/-- A change as the text of a note words it. -/
structure Wording where
  place : Place
  source : String
  op : Operator
  amount : Amount

/-- The change that a wording stands for. -/
def Wording.pending? (w : Wording) (names : TargetNames) (g : RuleGraph) : Option PendingDelta :=
  (w.place.key? names g).map fun target => ⟨target, w.source, w.op, w.amount⟩

theorem Wording.pending?_congr (w : Wording) (names : TargetNames) {g g' : RuleGraph}
    (same : g.SameNames g') : w.pending? names g' = w.pending? names g := by
  rw [pending?, pending?]
  cases w.place with
  | fixed key => rfl
  | named phrase => rw [Place.key?, Place.key?, names.canonicalize_congr same]

namespace Context

def change (c : Context) (d : Delta) : Wording where
  place := .named d.phrase
  source := (c.amount d.amount).1
  op := match d.change with
    | .increase | .decrease => .add
    | .multiply => .multiply
  amount := match d.change with
    | .increase | .multiply => (c.amount d.amount).2
    | .decrease => (c.amount d.amount).2.negate

def count (c : Context) (text : AmountText) (counted : Counted) : Wording where
  place := .fixed (match counted with
    | .powers => "powerCount"
    | .powerPoints => "powerPoints")
  source := (c.amount text).1
  op := .add
  amount := (c.amount text).2

theorem pending?_change (c : Context) (d : Delta) (names : TargetNames) (g : RuleGraph) :
    (c.change d).pending? names g = c.pending? names g d := by
  obtain ⟨change, amount, phrase⟩ := d
  cases change <;> rfl

end Context

/-- A placeholder that is computed: its number, how many characters of its clause are left where it
begins, and its expression. -/
structure Part where
  number : Nat
  left : Nat
  text : String
  formula : Expr

def partRules (key feature : String) (parts : List Part) : List Rule :=
  parts.flatMap fun x => placeholderRules (partKey key x.number) feature x.formula

/-- What a clause amounts to: the parts that are computed, the change that it words, and the number
of the next placeholder. -/
structure Outline where
  parts : List Part := []
  wording : Option Wording := none
  next : Nat

def Piece.length : Piece → Nat
  | .text s => s.toList.length
  | .placeholder expression => expression.toList.length + 3

def piecesLength : List Piece → Nat
  | [] => 0
  | piece :: rest => piece.length + piecesLength rest

/-- The parts that pieces of a clause are computed as, the next number, and the clause with numbers
in place of the placeholders. -/
def outlinePieces (next : Nat) : List Piece → List Part × Nat × Option (List Char)
  | [] => ([], next, some [])
  | .text s :: rest =>
    let (parts, next, clause) := outlinePieces next rest
    (parts, next, clause.map (s.toList ++ ·))
  | .placeholder expression :: rest =>
    match Formula.parse expression with
    | .error _ => ([], next + 1, none)
    | .ok e =>
      let (parts, last, clause) := outlinePieces (next + 1) rest
      (⟨next, piecesLength (.placeholder expression :: rest), expression, e⟩ :: parts, last,
        clause.map (('%' :: (toString next).toList) ++ ·))

def Phrasing.outline? (phrasing : Phrasing) (c : Context) (clause : List Char) : Option Outline :=
  match phrasing with
  | .count => (readCount? clause).map fun (text, counted) => ⟨[], some (c.count text counted), c.next⟩
  | .expression =>
    if hasPlaceholder clause then
      let (parts, next, clause) := outlinePieces c.next (pieces clause)
      some ⟨parts, (clause.bind readDelta?).map { c with next := next }.change, next⟩
    else none
  | .delta => (readDelta? clause).map fun d => ⟨[], some (c.change d), c.next⟩

def outlineClause (phrasings : List Phrasing) (c : Context) (clause : List Char) : Outline :=
  (phrasings.findSome? fun f => f.outline? c clause).getD ⟨[], none, c.next⟩

def outlines (phrasings : List Phrasing) (c : Context) : List (List Char) → List Outline
  | [] => []
  | clause :: rest =>
    let o := outlineClause phrasings c clause
    o :: outlines phrasings { c with next := o.next } rest

theorem exists_of_mem_outlines {phrasings : List Phrasing} {c : Context}
    {clauses : List (List Char)} {o : Outline} (h : o ∈ outlines phrasings c clauses) :
    ∃ next, ∃ clause ∈ clauses, o = outlineClause phrasings { c with next } clause := by
  induction clauses generalizing c with
  | nil => cases h
  | cons clause rest ih =>
      cases List.mem_cons.mp h with
      | inl first => exact ⟨c.next, clause, List.mem_cons_self, first⟩
      | inr later =>
          obtain ⟨next, other, member, outlined⟩ := ih later
          exact ⟨next, other, .tail clause member, outlined⟩

/-- Registers the parts of an outline and adds its change to those that wait. -/
def Outline.apply (o : Outline) (names : TargetNames) (key feature : String) (p : Progress) :
    Progress :=
  let g := p.graph.defineAll (partRules key feature o.parts)
  ⟨g, (o.wording.bind (·.pending? names g)).elim p.deltas (·.push p.deltas)⟩

theorem Progress.placeholders_eq (p : Progress) (c : Context) (pieces : List Piece) :
    p.placeholders c pieces =
      ({ p with
          graph := p.graph.defineAll (partRules c.key c.feature (outlinePieces c.next pieces).1) },
        { c with next := (outlinePieces c.next pieces).2.1 }, (outlinePieces c.next pieces).2.2) := by
  induction pieces generalizing p c with
  | nil => rfl
  | cons piece rest ih =>
      cases piece with
      | text s => simp only [placeholders, outlinePieces, ih]
      | placeholder expression =>
          rw [placeholders, outlinePieces]
          cases Formula.parse expression with
          | error faults => rfl
          | ok e => simp only [ih, partRules, List.flatMap_cons, RuleGraph.defineAll_append]

theorem Progress.applyDelta_eq (p : Progress) (names : TargetNames) (c : Context)
    (clause : List Char) : p.applyDelta names c clause =
      Outline.apply ⟨[], (readDelta? clause).map c.change, c.next⟩ names c.key c.feature p := by
  have same : p.graph.defineAll (partRules c.key c.feature []) = p.graph := rfl
  rw [applyDelta, Outline.apply]
  cases readDelta? clause with
  | none => rfl
  | some d =>
      simp only [Option.bind_some, Option.map_some, same, Context.pending?_change]
      cases c.pending? names p.graph d <;> rfl

theorem Phrasing.compile?_eq (phrasing : Phrasing) (names : TargetNames) (p : Progress)
    (c : Context) (clause : List Char) : phrasing.compile? names p c clause =
      (phrasing.outline? c clause).map fun o => (o.apply names c.key c.feature p, { c with next := o.next }) := by
  cases phrasing with
  | count =>
      rw [compile?, outline?, Option.map_map]
      refine congrArg (Option.map · _) (funext ?_)
      rintro ⟨text, counted⟩
      cases counted <;> rfl
  | expression =>
      rw [compile?, outline?]
      split
      · simp only [Progress.placeholders_eq, Option.map_some]
        cases (outlinePieces c.next (pieces clause)).2.2 with
        | none => rfl
        | some text => simp only [Option.elim_some, Progress.applyDelta_eq]; rfl
      · rfl
  | delta =>
      rw [compile?, outline?, Progress.applyDelta_eq]
      cases readDelta? clause <;> rfl

theorem compileClause_eq (phrasings : List Phrasing) (names : TargetNames) (p : Progress)
    (c : Context) (clause : List Char) : compileClause phrasings names p c clause =
      ((outlineClause phrasings c clause).apply names c.key c.feature p,
        { c with next := (outlineClause phrasings c clause).next }) := by
  rw [compileClause, outlineClause]
  have found : (phrasings.findSome? fun f => f.compile? names p c clause) =
      (phrasings.findSome? fun f => f.outline? c clause).map fun o =>
        (o.apply names c.key c.feature p, { c with next := o.next }) := by
    simp only [Phrasing.compile?_eq, List.map_findSome?, Function.comp_def]
  rw [found]
  cases phrasings.findSome? fun f => f.outline? c clause <;> rfl

theorem foldl_compileClause (phrasings : List Phrasing) (names : TargetNames) (p : Progress)
    (c : Context) (clauses : List (List Char)) :
    (clauses.foldl (fun (p, c) clause => compileClause phrasings names p c clause) (p, c)).1 =
      (outlines phrasings c clauses).foldl (fun p o => o.apply names c.key c.feature p) p := by
  induction clauses generalizing p c with
  | nil => rfl
  | cons clause rest ih =>
      have first := compileClause_eq phrasings names p c clause
      rw [List.foldl_cons]
      dsimp only
      rw [first]
      exact ih _ _

/-- Changes that wait, with further ones merged into them. -/
def mergeAll (waiting changes : List PendingDelta) : List PendingDelta :=
  changes.foldl (fun waiting d => d.push waiting) waiting

theorem mergeAll_append (waiting changes more : List PendingDelta) :
    mergeAll waiting (changes ++ more) = mergeAll (mergeAll waiting changes) more :=
  List.foldl_append

theorem point_mem_partRules {key feature : String} {parts : List Part} :
    ∀ r ∈ partRules key feature parts, '.' ∈ r.target.toList := by
  intro r member
  obtain ⟨x, -, own⟩ := List.mem_flatMap.mp member
  simp [target_of_mem_placeholderRules own, partKey]

theorem Outline.apply_eq (o : Outline) (names : TargetNames) (key feature : String) (p : Progress)
    {g : RuleGraph} (same : g.SameNames p.graph) : o.apply names key feature p =
      ⟨p.graph.defineAll (partRules key feature o.parts),
        mergeAll p.deltas (o.wording.toList.filterMap (·.pending? names g))⟩ := by
  have later := same.trans (p.graph.sameNames_defineAll (@point_mem_partRules key feature o.parts))
  rw [apply]
  cases o.wording with
  | none => rfl
  | some w =>
      simp only [Option.bind_some, w.pending?_congr names later, Option.toList_some]
      cases found : w.pending? names g <;> simp [mergeAll, found]

/-- Outlines that are applied one after another register their parts and add the changes that they
word; names are looked up as at the beginning. -/
theorem foldl_apply (names : TargetNames) (key feature : String) {g : RuleGraph}
    (all : List Outline) {p : Progress} (same : g.SameNames p.graph) :
    all.foldl (fun p o => o.apply names key feature p) p =
      ⟨p.graph.defineAll (partRules key feature (all.flatMap (·.parts))),
        mergeAll p.deltas ((all.flatMap (·.wording.toList)).filterMap (·.pending? names g))⟩ := by
  induction all generalizing p with
  | nil => rfl
  | cons o rest ih =>
      have first := o.apply_eq names key feature p same
      -- parts write keys with a point only, so names are still looked up as in `g`
      have same' := same.trans (p.graph.sameNames_defineAll (@point_mem_partRules key feature o.parts))
      rw [List.foldl_cons, ih (by rwa [first]), first, List.flatMap_cons, List.flatMap_cons,
        List.filterMap_append, mergeAll_append]
      simp only [partRules, List.flatMap_append, RuleGraph.defineAll_append]

def contextOf (name category note : String) : Context :=
  ⟨noteKey category name, "features." ++ name, firstPlaceholder note.toList⟩

def outlinesOf (phrasings : List Phrasing) (name : String) (note : String × String) :
    List Outline := outlines phrasings (contextOf name note.1 note.2) (clausesOf note.2)

/-- The rule of the attribute that shows a note. -/
def shownRule (name : String) (note : String × String) : Rule :=
  ⟨noteKey note.1 name, "features." ++ name, if showsValue note.2 then .gate else .set, .passThrough⟩

/-- The parts of a note that are computed. -/
def partsOf (phrasings : List Phrasing) (name : String) (note : String × String) : List Part :=
  (outlinesOf phrasings name note).flatMap (·.parts)

theorem parse_of_mem_outlinePieces {next : Nat} {pieces : List Piece} {x : Part}
    (h : x ∈ (outlinePieces next pieces).1) : Formula.parse x.text = .ok x.formula := by
  induction pieces generalizing next with
  | nil => cases h
  | cons piece rest ih =>
      cases piece with
      | text s => exact ih h
      | placeholder expression =>
          rw [outlinePieces] at h
          split at h
          · cases h
          · rename_i parsed
            cases List.mem_cons.mp h with
            | inl own =>
                obtain rfl := own
                exact parsed
            | inr later => exact ih later

theorem parse_of_mem_outlineClause {phrasings : List Phrasing} {c : Context} {clause : List Char}
    {x : Part} (h : x ∈ (outlineClause phrasings c clause).parts) :
    Formula.parse x.text = .ok x.formula := by
  rw [outlineClause] at h
  cases found : phrasings.findSome? fun f => f.outline? c clause with
  | none =>
      rw [found] at h
      cases h
  | some o =>
      rw [found] at h
      obtain ⟨phrasing, -, read⟩ := List.exists_of_findSome?_eq_some found
      cases phrasing with
      | count =>
          obtain ⟨_, -, rfl⟩ := Option.map_eq_some_iff.mp read
          cases h
      | expression =>
          rw [Phrasing.outline?] at read
          split at read
          · cases read
            exact parse_of_mem_outlinePieces h
          · cases read
      | delta =>
          obtain ⟨_, -, rfl⟩ := Option.map_eq_some_iff.mp read
          cases h

theorem parse_of_mem_partsOf {phrasings : List Phrasing} {name : String} {note : String × String}
    {x : Part} (h : x ∈ partsOf phrasings name note) : Formula.parse x.text = .ok x.formula := by
  obtain ⟨o, outlined, member⟩ := List.mem_flatMap.mp h
  obtain ⟨next, clause, -, rfl⟩ := exists_of_mem_outlines outlined
  exact parse_of_mem_outlineClause member

/-- The rules that a note registers at once. -/
def rulesOf (phrasings : List Phrasing) (name : String) (note : String × String) : List Rule :=
  shownRule name note ::
    partRules (noteKey note.1 name) ("features." ++ name) (partsOf phrasings name note)

def wordingsOf (phrasings : List Phrasing) (name : String) (note : String × String) :
    List Wording := (outlinesOf phrasings name note).flatMap (·.wording.toList)

/-- A clause words a change that is read from a text, or a count. -/
theorem exists_of_outline? {phrasing : Phrasing} {c : Context} {clause : List Char} {o : Outline}
    (outlined : phrasing.outline? c clause = some o) {w : Wording} (worded : o.wording = some w) :
    ∃ next, (∃ d, w = { c with next }.change d) ∨
      ∃ text counted, w = { c with next }.count text counted := by
  cases phrasing with
  | count =>
      obtain ⟨⟨text, counted⟩, -, rfl⟩ := Option.map_eq_some_iff.mp outlined
      exact ⟨c.next, .inr ⟨text, counted, (Option.some.inj worded).symm⟩⟩
  | expression =>
      rw [Phrasing.outline?] at outlined
      split at outlined
      · cases outlined
        obtain ⟨d, -, rfl⟩ := Option.map_eq_some_iff.mp worded
        exact ⟨_, .inl ⟨d, rfl⟩⟩
      · cases outlined
  | delta =>
      obtain ⟨d, -, rfl⟩ := Option.map_eq_some_iff.mp outlined
      exact ⟨c.next, .inl ⟨d, (Option.some.inj worded).symm⟩⟩

theorem exists_of_mem_wordingsOf {phrasings : List Phrasing} {name : String}
    {note : String × String} {w : Wording} (h : w ∈ wordingsOf phrasings name note) :
    ∃ next, (∃ d, w = { contextOf name note.1 note.2 with next }.change d) ∨
      ∃ text counted, w = { contextOf name note.1 note.2 with next }.count text counted := by
  obtain ⟨o, outlined, worded⟩ := List.mem_flatMap.mp h
  obtain ⟨next, clause, -, rfl⟩ := exists_of_mem_outlines outlined
  rw [Option.mem_toList, outlineClause] at worded
  cases found : phrasings.findSome? fun f =>
      f.outline? { contextOf name note.1 note.2 with next } clause with
  | none =>
      rw [found] at worded
      cases worded
  | some o =>
      rw [found] at worded
      obtain ⟨phrasing, -, read⟩ := List.exists_of_findSome?_eq_some found
      exact exists_of_outline? read worded

/-- Clauses word additions and multiplications. -/
theorem op_of_mem_wordingsOf {phrasings : List Phrasing} {name : String} {note : String × String}
    {w : Wording} (h : w ∈ wordingsOf phrasings name note) : w.op = .add ∨ w.op = .multiply := by
  obtain ⟨next, ⟨⟨change, amount, phrase⟩, rfl⟩ | ⟨text, counted, rfl⟩⟩ := exists_of_mem_wordingsOf h
  · cases change with
    | increase => exact .inl rfl
    | decrease => exact .inl rfl
    | multiply => exact .inr rfl
  · exact .inl rfl

theorem point_mem_shownRule (name : String) (note : String × String) :
    '.' ∈ (shownRule name note).target.toList := by
  simp [shownRule, noteKey]

theorem pointed_rulesOf (phrasings : List Phrasing) (name : String) (note : String × String) :
    ∀ r ∈ rulesOf phrasings name note, '.' ∈ r.target.toList := by
  intro r member
  cases List.mem_cons.mp member with
  | inl own => exact own ▸ point_mem_shownRule name note
  | inr part => exact point_mem_partRules r part

theorem compileNote_eq (phrasings : List Phrasing) (names : TargetNames) (name : String)
    (p : Progress) {g : RuleGraph} (same : g.SameNames p.graph) (note : String × String) :
    compileNote phrasings names name ("features." ++ name) p note.1 note.2 =
      ⟨(p.graph.defineAll (rulesOf phrasings name note)).defineNote (noteKey note.1 name) note.2,
        mergeAll p.deltas ((wordingsOf phrasings name note).filterMap (·.pending? names g))⟩ := by
  have single : ∀ r ∈ [shownRule name note], '.' ∈ r.target.toList :=
    List.forall_mem_singleton.mpr (point_mem_shownRule name note)
  have shown : g.SameNames (p.graph.define (shownRule name note)) :=
    same.trans (p.graph.sameNames_defineAll single)
  rw [compileNote]
  dsimp only
  rw [foldl_compileClause]
  refine (foldl_apply names _ _ (outlinesOf phrasings name note) (g := g) shown).trans ?_
  rw [RuleGraph.defineAll_defineNote]
  rfl

/-- A graph with the notes of a trait kept. -/
def keepNotes (g : RuleGraph) (name : String) (notes : List (String × String)) : RuleGraph :=
  notes.foldl (fun g note => g.defineNote (noteKey note.1 name) note.2) g

/-- Nothing but the notes of a graph is another when notes are kept. -/
theorem exists_keepNotes_eq (g : RuleGraph) (name : String) (notes : List (String × String)) :
    ∃ kept, keepNotes g name notes = { g with notes := kept } := by
  induction notes generalizing g with
  | nil => exact ⟨g.notes, rfl⟩
  | cons note rest ih => exact ih (g.defineNote (noteKey note.1 name) note.2)

section

variable (g : RuleGraph) (name : String) (notes : List (String × String))

@[simp] theorem rules_keepNotes : (keepNotes g name notes).rules = g.rules := by
  obtain ⟨kept, same⟩ := exists_keepNotes_eq g name notes
  rw [same]

@[simp] theorem rulesFor_keepNotes (key : String) :
    (keepNotes g name notes).rulesFor key = g.rulesFor key := by
  obtain ⟨kept, same⟩ := exists_keepNotes_eq g name notes
  rw [same]
  rfl

@[simp] theorem hasRule_keepNotes (r : Rule) :
    (keepNotes g name notes).hasRule r = g.hasRule r := by
  rw [RuleGraph.hasRule, rulesFor_keepNotes, RuleGraph.hasRule]

@[simp] theorem hasTarget_keepNotes (key : String) :
    (keepNotes g name notes).hasTarget key = g.hasTarget key := by
  obtain ⟨kept, same⟩ := exists_keepNotes_eq g name notes
  rw [same]
  rfl

end

theorem defineAll_keepNotes (g : RuleGraph) (name : String) (notes : List (String × String))
    (rules : List Rule) :
    (keepNotes g name notes).defineAll rules = keepNotes (g.defineAll rules) name notes := by
  induction notes generalizing g with
  | nil => rfl
  | cons note rest ih =>
      have first := g.defineAll_defineNote (noteKey note.1 name) note.2 rules
      exact (ih _).trans (congrArg (keepNotes · name rest) first)

theorem foldl_compileNote (phrasings : List Phrasing) (names : TargetNames) (name : String)
    {g : RuleGraph} (notes : List (String × String)) {p : Progress} (same : g.SameNames p.graph) :
    notes.foldl (fun p (category, note) =>
        compileNote phrasings names name ("features." ++ name) p category note) p =
      ⟨keepNotes (p.graph.defineAll (notes.flatMap (rulesOf phrasings name))) name notes,
        mergeAll p.deltas
          ((notes.flatMap (wordingsOf phrasings name)).filterMap (·.pending? names g))⟩ := by
  induction notes generalizing p with
  | nil => rfl
  | cons note rest ih =>
      have first := compileNote_eq phrasings names name p same note
      have same' : g.SameNames (p.graph.defineAll (rulesOf phrasings name note)) :=
        same.trans (p.graph.sameNames_defineAll (pointed_rulesOf phrasings name note))
      have later := fun deltas => @ih ⟨(p.graph.defineAll (rulesOf phrasings name note)).defineNote
        (noteKey note.1 name) note.2, deltas⟩ (same'.defineNote _ _)
      rw [List.foldl_cons]
      show List.foldl _ (compileNote _ _ _ _ p note.1 note.2) rest = _
      rw [first, later, List.flatMap_cons, List.flatMap_cons,
        List.filterMap_append, RuleGraph.defineAll_append, mergeAll_append,
        RuleGraph.defineAll_defineNote]
      rfl

/-- The merged changes of a trait, each of an attribute of a graph. -/
def changesOf (phrasings : List Phrasing) (names : TargetNames) (g : RuleGraph) (name : String)
    (notes : List (String × String)) : List PendingDelta :=
  mergeAll [] ((notes.flatMap (wordingsOf phrasings name)).filterMap (·.pending? names g))

theorem exists_of_mem_mergeAll {waiting changes : List PendingDelta} {d : PendingDelta}
    (h : d ∈ mergeAll waiting changes) : ∃ old, (old ∈ waiting ∨ old ∈ changes) ∧
      d.target = old.target ∧ d.source = old.source ∧ d.op = old.op := by
  induction changes generalizing waiting with
  | nil => exact ⟨d, .inl h, rfl, rfl, rfl⟩
  | cons e rest ih =>
      obtain ⟨old, origin, slot⟩ := @ih (e.push waiting) h
      rcases origin with pushed | later
      · obtain ⟨older, origin', slot'⟩ := PendingDelta.exists_of_mem_push pushed
        have given : older ∈ waiting ∨ older ∈ e :: rest :=
          origin'.symm.imp_right fun own => List.mem_cons.mpr (.inl own)
        exact ⟨older, given, slot.1.trans slot'.1, slot.2.1.trans slot'.2.1,
          slot.2.2.trans slot'.2.2⟩
      · exact ⟨old, .inr (.tail e later), slot⟩

/-- A merged change is of an attribute that a wording changes, by the same source. -/
theorem exists_of_mem_changesOf {phrasings : List Phrasing} {names : TargetNames} {g : RuleGraph}
    {name : String} {notes : List (String × String)} {d : PendingDelta}
    (h : d ∈ changesOf phrasings names g name notes) :
    ∃ note ∈ notes, ∃ w ∈ wordingsOf phrasings name note,
      w.place.key? names g = some d.target ∧ w.source = d.source ∧ w.op = d.op := by
  obtain ⟨old, origin, target, source, op⟩ := exists_of_mem_mergeAll h
  rcases origin with waiting | changed
  · cases waiting
  · obtain ⟨w, worded, pending⟩ := List.mem_filterMap.mp changed
    obtain ⟨note, member, own⟩ := List.mem_flatMap.mp worded
    obtain ⟨key, named, rfl⟩ := Option.map_eq_some_iff.mp pending
    exact ⟨note, member, w, own, named.trans (congrArg some target.symm), source.symm, op.symm⟩

/-- Compiling a trait keeps its notes, registers rules that depend on the text alone, and then one
rule for each merged change, whose names are looked up in the graph as it was before. -/
theorem compileNotes_eq (phrasings : List Phrasing) (g : RuleGraph) (names : TargetNames)
    (name : String) (notes : List (String × String)) : compileNotes phrasings g names name notes =
      keepNotes (g.defineAll (notes.flatMap (rulesOf phrasings name) ++
        (changesOf phrasings names g name notes).map PendingDelta.rule)) name notes := by
  have compiled := foldl_compileNote phrasings names name notes (p := ⟨g, []⟩) (.refl g)
  rw [compileNotes]
  dsimp only
  rw [compiled, defineAll_keepNotes, RuleGraph.defineAll_append]
  rfl

end CharacterRules.Note
