import CharacterRules.Note.Render
import CharacterRules.Proofs.Note.Part
import CharacterRules.Proofs.Note.Placeholder

/-!
Numbers of placeholders. The compilation of a note numbers its placeholders clause by clause, and
its rendering does so along the whole text. Both count alike if every placeholder is one for both: it
is not empty, stands behind no doubled percent sign, and is compiled with the clause that it is in.
-/

namespace CharacterRules.Note

/-- What the rendering of a note puts out. -/
inductive Segment where
  | plain (c : Char)
  | own
  | part (mark : Char)
  | placeholder (number : Nat) (x : Occurrence)
  deriving DecidableEq

def Segment.shown (sheet : Attributes) (key : String) (own : Value) : Segment → List Char
  | .plain c => [c]
  | .own => own.display.toList
  | .part mark => (Note.shown sheet[key ++ "." ++ String.singleton mark]?).toList
  | .placeholder number x => (placeholderText sheet key number x.inside).toList

/-- The segments of a text whose next placeholder has the number `next`. -/
def segments (next : Nat) : List Char → List Segment
  | [] => []
  | [c] => [.plain c]
  | c :: d :: rest =>
    if c != '%' then .plain c :: segments next (d :: rest)
    else if d == '%' then .plain '%' :: segments next rest
    else if d == 'V' then .own :: segments next rest
    else if '1' ≤ d && d ≤ '9' then .part d :: segments next rest
    else if d == '\x7b' then
      if rest.contains '\x7d' then
        .placeholder next ⟨(c :: d :: rest).length, rest.takeWhile (· != '\x7d')⟩ ::
          segments (next + 1) ((rest.dropWhile (· != '\x7d')).drop 1)
      else .plain '%' :: segments next (d :: rest)
    else .plain '%' :: segments next (d :: rest)
termination_by text => text.length
decreasing_by
  all_goals simp only [List.length_cons, List.length_drop]
  all_goals try omega
  have := (List.dropWhile_suffix (· != '\x7d') (l := rest)).length_le
  omega

theorem renderFrom_eq (sheet : Attributes) (key : String) (own : Value) (next : Nat)
    (text : List Char) : renderFrom sheet key own next text =
      (segments next text).flatMap (·.shown sheet key own) := by
  fun_induction segments next text with
  | case1 next => rw [renderFrom]; rfl
  | case2 next c => rw [renderFrom]; rfl
  | case3 next c d rest plain ih =>
      rw [renderFrom, if_pos plain, ih]
      rfl
  | case4 next c d rest mark percent ih =>
      rw [renderFrom, if_neg mark, if_pos percent, ih]
      rfl
  | case5 next c d rest mark percent value ih =>
      rw [renderFrom, if_neg mark, if_neg percent, if_pos value, ih]
      rfl
  | case6 next c d rest mark percent value digit ih =>
      rw [renderFrom, if_neg mark, if_neg percent, if_neg value, if_pos digit, ih]
      rfl
  | case7 next c d rest mark percent value digit brace closed ih =>
      rw [renderFrom, if_neg mark, if_neg percent, if_neg value, if_neg digit, if_pos brace,
        if_pos closed, ih]
      rfl
  | case8 next c d rest mark percent value digit brace closed ih =>
      rw [renderFrom, if_neg mark, if_neg percent, if_neg value, if_neg digit, if_pos brace,
        if_neg closed, ih]
      rfl
  | case9 next c d rest mark percent value digit brace ih =>
      rw [renderFrom, if_neg mark, if_neg percent, if_neg value, if_neg digit, if_neg brace, ih]
      rfl

/-- The placeholders that the rendering of a text numbers. -/
def rendered (next : Nat) (text : List Char) : List (Occurrence × Nat) :=
  (segments next text).filterMap fun
    | .placeholder number x => some (x, number)
    | _ => none

/-- Whether a text has no empty placeholder, and none behind a doubled percent sign. -/
structure IsPlain (text : List Char) : Prop where
  filled : ¬ ['%', '\x7b', '\x7d'] <:+: text
  single : ¬ ['%', '%', '\x7b'] <:+: text

instance (text : List Char) : Decidable (IsPlain text) :=
  decidable_of_iff (¬ ['%', '\x7b', '\x7d'] <:+: text ∧ ¬ ['%', '%', '\x7b'] <:+: text)
    ⟨fun h => ⟨h.1, h.2⟩, fun h => ⟨h.filled, h.single⟩⟩

theorem IsPlain.of_suffix {text rest : List Char} (h : IsPlain text) (suffix : rest <:+ text) :
    IsPlain rest :=
  ⟨fun found => h.filled (found.trans suffix.isInfix),
    fun found => h.single (found.trans suffix.isInfix)⟩

theorem opened?_mark_of_ne {d : Char} (other : d ≠ '\x7b') (rest : List Char) :
    opened? ('%' :: d :: rest) = none :=
  opened?_eq_none_iff.mpr fun _ _ _ _ same => other (List.cons.inj (List.cons.inj same).2).1

/-- In a plain text, the rendering numbers all placeholders in their order. -/
theorem rendered_eq {text : List Char} (plain : IsPlain text) (next : Nat) :
    rendered next text = (scan 0 text).zipIdx next := by
  rw [rendered]
  fun_induction segments next text with
  | case1 next => rfl
  | case2 next c =>
      rw [scan_cons_of_none 0 (opened?_eq_none_iff.mpr (by simp))]
      rfl
  | case3 next c d rest other ih =>
      have later := ih (plain.of_suffix (List.suffix_cons c _))
      rw [scan_cons_of_none 0 (opened?_cons_of_ne (bne_iff_ne.mp other) _), ← later]
      rfl
  | case4 next c d rest mark percent ih =>
      obtain rfl : c = '%' := by simpa using mark
      obtain rfl : d = '%' := by simpa using percent
      -- the second mark is passed over as well, so it must open nothing
      have single : opened? ('%' :: rest) = none := by
        refine opened?_eq_none_iff.mpr fun inside after _ _ same => plain.single ?_
        rw [same]
        exact List.infix_append [] ['%', '%', '\x7b'] _
      have later := ih (plain.of_suffix ((List.suffix_cons _ _).trans (List.suffix_cons _ _)))
      rw [scan_cons_of_none 0 (opened?_mark_of_ne (by decide) rest), scan_cons_of_none 0 single,
        ← later]
      rfl
  | case5 next c d rest mark percent value ih =>
      obtain rfl : c = '%' := by simpa using mark
      obtain rfl : d = 'V' := by simpa using value
      have later := ih (plain.of_suffix ((List.suffix_cons _ _).trans (List.suffix_cons _ _)))
      rw [scan_cons_of_none 0 (opened?_mark_of_ne (by decide) rest),
        scan_cons_of_none 0 (opened?_cons_of_ne (by decide) rest), ← later]
      rfl
  | case6 next c d rest mark percent value digit ih =>
      obtain rfl : c = '%' := by simpa using mark
      have other : d ≠ '\x7b' := by
        rintro rfl
        exact absurd digit (by decide)
      have later := ih (plain.of_suffix ((List.suffix_cons _ _).trans (List.suffix_cons _ _)))
      rw [scan_cons_of_none 0 (opened?_mark_of_ne other rest),
        scan_cons_of_none 0 (opened?_cons_of_ne (by simpa using percent) rest), ← later]
      rfl
  | case7 next c d rest mark percent value digit brace closed ih =>
      obtain rfl : c = '%' := by simpa using mark
      obtain rfl : d = '\x7b' := by simpa using brace
      obtain ⟨inside, after, rfl, free⟩ :=
        List.eq_append_cons_of_mem (List.contains_iff_mem.mp closed)
      have nonempty : inside ≠ [] := by
        rintro rfl
        exact plain.filled (List.infix_append [] ['%', '\x7b', '\x7d'] after)
      have found : opened? ('%' :: '\x7b' :: (inside ++ '\x7d' :: after)) = some (inside, after) :=
        opened?_eq_some.mpr ⟨rfl, nonempty, free⟩
      rw [dropWhile_open free, List.drop_one, List.tail_cons] at ih
      have later := ih (plain.of_suffix ⟨'%' :: '\x7b' :: (inside ++ ['\x7d']), by simp⟩)
      rw [takeWhile_open free, dropWhile_open free, scan_of_opened? 0 found, List.zipIdx_cons,
        ← later]
      rfl
  | case8 next c d rest mark percent value digit brace closed ih =>
      obtain rfl : c = '%' := by simpa using mark
      obtain rfl : d = '\x7b' := by simpa using brace
      -- the rendering goes on at the brace, which begins no placeholder either
      have unclosed : opened? ('%' :: '\x7b' :: rest) = none := by
        refine opened?_eq_none_iff.mpr fun inside after _ _ same => closed ?_
        rw [(List.cons.inj (List.cons.inj same).2).2]
        simp
      have later := ih (plain.of_suffix (List.suffix_cons _ _))
      rw [scan_cons_of_none 0 unclosed, ← later]
      rfl
  | case9 next c d rest mark percent value digit brace ih =>
      obtain rfl : c = '%' := by simpa using mark
      have other : d ≠ '\x7b' := by simpa using brace
      have later := ih (plain.of_suffix (List.suffix_cons _ _))
      rw [scan_cons_of_none 0 (opened?_mark_of_ne other rest), ← later]
      rfl

/-- The part that a numbered placeholder is computed as, if it holds a formula. -/
def part? (x : Occurrence × Nat) : Option Part :=
  match Formula.parse (String.ofList x.1.inside) with
  | .ok e => some ⟨x.2, x.1.left, String.ofList x.1.inside, e⟩
  | .error _ => none

/-- A part of a clause behind which its note has more characters, placed in the note. -/
def Part.before (behind : Nat) (x : Part) : Part := { x with left := x.left + behind }

/-- Whether all placeholders but the last hold formulas. -/
def ReadsOn (all : List Occurrence) : Prop :=
  ∀ x ∈ all.dropLast, (Formula.parse (String.ofList x.inside)).isOk = true

instance (all : List Occurrence) : Decidable (ReadsOn all) :=
  inferInstanceAs (Decidable (∀ x ∈ all.dropLast, _ = true))

theorem ReadsOn.tail {x : Occurrence} {rest : List Occurrence} (h : ReadsOn (x :: rest)) :
    ReadsOn rest := by
  cases rest with
  | nil => exact List.forall_mem_nil _
  | cons y rest => exact fun z member => h z (.tail x member)

theorem map_outlinePieces (behind next : Nat) {pieces : List Piece}
    (reads : ReadsOn (occurrences behind pieces)) :
    (outlinePieces next pieces).1.map (·.before behind) =
        ((occurrences behind pieces).zipIdx next).filterMap part? ∧
      (outlinePieces next pieces).2.1 = next + (occurrences behind pieces).length := by
  induction pieces generalizing next with
  | nil => exact ⟨rfl, rfl⟩
  | cons piece rest ih =>
      cases piece with
      | text s => exact ih next reads
      | placeholder expression =>
          rw [occurrences] at reads
          rw [outlinePieces, occurrences, List.zipIdx_cons, List.filterMap_cons, part?, String.ofList_toList]
          cases parsed : Formula.parse expression with
          | error faults =>
              cases later : occurrences behind rest with
              | nil => exact ⟨rfl, rfl⟩
              | cons y more =>
                  -- another placeholder follows, so this one would hold a formula
                  rw [later] at reads
                  have good := reads _ List.mem_cons_self
                  rw [String.ofList_toList, parsed] at good
                  cases good
          | ok e =>
              obtain ⟨parts, last⟩ := ih (next + 1) reads.tail
              refine ⟨congrArg₂ List.cons rfl parts, last.trans ?_⟩
              rw [List.length_cons]
              omega

/-- Whether each clause that has placeholders is compiled with them: none counts powers, and all
placeholders but the last hold formulas. -/
def CompilesWhole (clauses : List (Nat × List Char)) : Prop :=
  ∀ x ∈ clauses, ReadsOn (scan x.1 x.2) ∧ (hasPlaceholder x.2 = true → readCount? x.2 = none)

instance (clauses : List (Nat × List Char)) : Decidable (CompilesWhole clauses) :=
  inferInstanceAs (Decidable (∀ x ∈ clauses,
    ReadsOn (scan x.1 x.2) ∧ (hasPlaceholder x.2 = true → readCount? x.2 = none)))

theorem scan_of_hasPlaceholder_eq_false (behind : Nat) {clause : List Char}
    (h : hasPlaceholder clause = false) : scan behind clause = [] :=
  scan_of_find_none behind (by simpa [hasPlaceholder] using h)

/-- A clause that compiles whole is computed as its numbered placeholders that hold formulas. -/
theorem map_outlineClause (behind : Nat) (c : Context) {clause : List Char}
    (reads : ReadsOn (scan behind clause))
    (uncounted : hasPlaceholder clause = true → readCount? clause = none) :
    (outlineClause standardPhrasings c clause).parts.map (·.before behind) =
        ((scan behind clause).zipIdx c.next).filterMap part? ∧
      (outlineClause standardPhrasings c clause).next = c.next + (scan behind clause).length := by
  rw [outlineClause, standardPhrasings, List.findSome?_cons]
  cases placed : hasPlaceholder clause with
  | true =>
      have unread : Phrasing.count.outline? c clause = none := by
        rw [Phrasing.outline?, uncounted placed]
        rfl
      rw [unread]
      dsimp only
      rw [List.findSome?_cons, Phrasing.outline?, if_pos placed]
      exact map_outlinePieces behind c.next reads
  | false =>
      rw [scan_of_hasPlaceholder_eq_false behind placed]
      simp only [List.findSome?_cons, List.findSome?_nil, Phrasing.outline?, placed,
        Bool.false_eq_true, if_false]
      cases readCount? clause <;> cases readDelta? clause <;> exact ⟨rfl, rfl⟩

/-- The parts of clauses, each placed in their note. -/
def placedParts (clauses : List (Nat × List Char)) (all : List Outline) : List Part :=
  (clauses.zip all).flatMap fun x => x.2.parts.map (·.before x.1.1)

theorem placedParts_outlines {clauses : List (Nat × List Char)} (whole : CompilesWhole clauses)
    (c : Context) : placedParts clauses (outlines standardPhrasings c (clauses.map (·.2))) =
      ((clauses.flatMap fun x => scan x.1 x.2).zipIdx c.next).filterMap part? := by
  induction clauses generalizing c with
  | nil => rfl
  | cons x rest ih =>
      obtain ⟨reads, uncounted⟩ := whole x List.mem_cons_self
      obtain ⟨parts, next⟩ := map_outlineClause x.1 c reads uncounted
      have later := ih (fun y member => whole y (.tail x member))
        { c with next := (outlineClause standardPhrasings c x.2).next }
      rw [placedParts] at later ⊢
      rw [List.map_cons, outlines, List.zip_cons_cons, List.flatMap_cons, later, parts, next,
        List.flatMap_cons, List.zipIdx_append, List.filterMap_append]

theorem partRules_placedParts (key feature : String) (clauses : List (Nat × List Char))
    (c : Context) : partRules key feature
        (placedParts clauses (outlines standardPhrasings c (clauses.map (·.2)))) =
      partRules key feature
        ((outlines standardPhrasings c (clauses.map (·.2))).flatMap (·.parts)) := by
  induction clauses generalizing c with
  | nil => rfl
  | cons x rest ih =>
      have later := ih { c with next := (outlineClause standardPhrasings c x.2).next }
      simp only [partRules, placedParts] at later ⊢
      simp only [List.map_cons, outlines, List.zip_cons_cons, List.flatMap_cons,
        List.flatMap_append, later, List.flatMap_map]
      rfl

/-- The parts that the standard compilation of a note computes, each placed in the note. -/
def compiledParts (name category note : String) : List Part :=
  placedParts (locatedClauses note) (outlinesOf standardPhrasings name (category, note))

/-- A note whose clauses compile whole is computed as its numbered placeholders that hold formulas. -/
theorem compiledParts_eq (name category : String) {note : String}
    (whole : CompilesWhole (locatedClauses note)) : compiledParts name category note =
      ((scan 0 note.toList).zipIdx (firstPlaceholder note.toList)).filterMap part? := by
  have placed := placedParts_outlines whole (contextOf name category note)
  rwa [map_locatedClauses, ← scan_eq_flatMap_clauses] at placed

theorem partRules_compiledParts (key feature name category note : String) :
    partRules key feature (compiledParts name category note) =
      partRules key feature (partsOf standardPhrasings name (category, note)) := by
  have same := partRules_placedParts key feature (locatedClauses note) (contextOf name category note)
  rwa [map_locatedClauses] at same

section

variable (key feature : String)

theorem number_of_part? {x : Occurrence × Nat} {p : Part} (h : part? x = some p) :
    p.number = x.2 := by
  rw [part?] at h
  split at h
  · cases h
    rfl
  · cases h

/-- Among the parts of numbered placeholders, those of one number have the rules of one placeholder. -/
theorem onto_partRules_zipIdx {all : List Occurrence} {next : Nat} {x : Occurrence × Nat}
    (member : x ∈ all.zipIdx next) :
    RuleGraph.onto (partKey key x.2) (partRules key feature ((all.zipIdx next).filterMap part?)) =
      (part? x).elim [] fun p => placeholderRules (partKey key x.2) feature p.formula := by
  induction all generalizing next with
  | nil => cases member
  | cons first rest ih =>
      rw [List.zipIdx_cons] at member ⊢
      rw [List.filterMap_cons]
      cases List.mem_cons.mp member with
      | inl own =>
          obtain rfl := own
          -- the placeholders behind it have greater numbers and so other keys
          have behind : RuleGraph.onto (partKey key next)
              (partRules key feature ((rest.zipIdx (next + 1)).filterMap part?)) = [] := by
            refine onto_partRules_eq_nil key feature fun p computed same => ?_
            obtain ⟨y, later, found⟩ := List.mem_filterMap.mp computed
            have above := (List.mem_zipIdx later).1
            rw [number_of_part? found] at same
            omega
          cases computed : part? (first, next) with
          | none => exact behind
          | some p =>
              dsimp only
              rw [onto_partRules_cons, if_pos (number_of_part? computed), behind, List.append_nil]
              rfl
      | inr later =>
          have above := (List.mem_zipIdx later).1
          cases computed : part? (first, next) with
          | none => exact ih later
          | some p =>
              have other : p.number ≠ x.2 := by
                rw [number_of_part? computed]
                omega
              rw [onto_partRules_cons, if_neg other, List.nil_append]
              exact ih later

end

/-- The key of a numbered placeholder has the rules of this placeholder, and none if that one holds no
formula. -/
theorem rulesFor_compileNotes_placeholder {names : TargetNames} {name category note : String}
    (whole : CompilesWhole (locatedClauses note)) (spares : SparesParts names (noteKey category name))
    {x : Occurrence × Nat}
    (numbered : x ∈ (scan 0 note.toList).zipIdx (firstPlaceholder note.toList)) :
    (compileNotes standardPhrasings {} names name [(category, note)]).rulesFor
        (partKey (noteKey category name) x.2) =
      (part? x).elim [] fun p =>
        placeholderRules (partKey (noteKey category name) x.2) ("features." ++ name) p.formula := by
  rw [rulesFor_compileNotes_part standardPhrasings note spares, ← partRules_compiledParts,
    compiledParts_eq name category whole, onto_partRules_zipIdx _ _ numbered]
  cases part? x with
  | none => rfl
  | some p => exact RuleGraph.foldl_register_of_pairwise (pairwise_placeholderRules _ _ p.formula)

/-- The compilation and the rendering number the placeholders of a note alike, if each placeholder is
one for both. Then the rules of the part that the rendering reads for a placeholder are those of this
very placeholder; or it holds no formula, and no rule writes that part. -/
theorem placeholders_compileFeature (names : TargetNames) (name category note : String)
    (plain : IsPlain note.toList) (whole : CompilesWhole (locatedClauses note))
    (spares : SparesParts names (noteKey category name)) :
    ∃ g, compileFeature standardPhrasings {} names name [category] [note] = .ok g ∧
      (∀ sheet, render note (noteKey category name) sheet =
        sheet[noteKey category name]?.map fun own => String.ofList
          ((segments (firstPlaceholder note.toList) note.toList).flatMap
            (·.shown sheet (noteKey category name) own))) ∧
      ∀ number x,
        Segment.placeholder number x ∈ segments (firstPlaceholder note.toList) note.toList →
        ((Formula.parse (String.ofList x.inside)).isOk = false ∧
          g.hasTarget (partKey (noteKey category name) number) = false) ∨
        ∃ e, Formula.parse (String.ofList x.inside) = .ok e ∧
          ⟨number, x.left, String.ofList x.inside, e⟩ ∈ compiledParts name category note ∧
          g.rulesFor (partKey (noteKey category name) number) =
            placeholderRules (partKey (noteKey category name) number) ("features." ++ name) e := by
  have compiled : compileFeature standardPhrasings {} names name [category] [note] =
      .ok (compileNotes standardPhrasings {} names name [(category, note)]) := rfl
  have built := built_of_compileFeature RuleGraph.built_empty compiled
  refine ⟨_, compiled, fun sheet => ?_, fun number x member => ?_⟩
  · rw [render]
    simp only [renderFrom_eq]
  · have numbered : (x, number) ∈ (scan 0 note.toList).zipIdx (firstPlaceholder note.toList) := by
      rw [← rendered_eq plain]
      exact List.mem_filterMap.mpr ⟨_, member, rfl⟩
    have rules := rulesFor_compileNotes_placeholder whole spares numbered
    cases parsed : Formula.parse (String.ofList x.inside) with
    | error faults =>
        have computed : part? (x, number) = none := by rw [part?, parsed]
        rw [computed] at rules
        exact .inl ⟨rfl, built.consistent.hasTarget_eq_false rules⟩
    | ok e =>
        have computed : part? (x, number) = some ⟨number, x.left, String.ofList x.inside, e⟩ := by
          rw [part?, parsed]
        rw [computed] at rules
        refine .inr ⟨e, rfl, ?_, rules⟩
        rw [compiledParts_eq name category whole]
        exact List.mem_filterMap.mpr ⟨_, numbered, computed⟩

def fightingName : TargetNames := ({} : TargetNames).addSkill "Fighting"

/-- A note whose third placeholder holds no formula, but ends its clause. -/
def soakNote : String := "+%{strength / 2} Fighting/Soak %{vigor} of %{?}/%{spirit} powers"

theorem placeholders_soakNote : IsPlain soakNote.toList ∧
    CompilesWhole (locatedClauses soakNote) ∧
    SparesParts fightingName (noteKey "combat" "Tough") ∧
    ∃ g, compileFeature standardPhrasings {} fightingName "Tough" ["combat"] [soakNote] = .ok g ∧
      Segment.placeholder 4 ⟨16, "spirit".toList⟩ ∈ segments 1 soakNote.toList ∧
      ∃ e, Formula.parse "spirit" = .ok e ∧
        ⟨4, 16, "spirit", e⟩ ∈ compiledParts "Tough" "combat" soakNote ∧
        g.rulesFor "combatNotes.tough.4" =
          placeholderRules "combatNotes.tough.4" "features.Tough" e := by
  have plain : IsPlain soakNote.toList := by decide +kernel
  have whole : CompilesWhole (locatedClauses soakNote) := by decide +kernel
  have spares : SparesParts fightingName (noteKey "combat" "Tough") := by
    intro skill member number
    obtain rfl : "Fighting" = skill := by
      simpa [fightingName, TargetNames.addSkill] using member
    exact ⟨append_ne_partKey (show _ = some 'g' by decide) (by decide) _ number,
      append_ne_partKey (show _ = some 'g' by decide) (by decide) _ number⟩
  have member : Segment.placeholder 4 ⟨16, "spirit".toList⟩ ∈ segments 1 soakNote.toList := by
    decide +kernel
  obtain ⟨g, compiled, -, alike⟩ :=
    placeholders_compileFeature fightingName "Tough" "combat" soakNote plain whole spares
  have first : firstPlaceholder soakNote.toList = 1 := by decide
  have key : partKey (noteKey "combat" "Tough") 4 = "combatNotes.tough.4" := by decide +kernel
  refine ⟨plain, whole, spares, g, compiled, member, ?_⟩
  rw [first] at alike
  rcases alike 4 _ member with ⟨unread, -⟩ | found
  · exact absurd unread (by decide +kernel)
  · rwa [key] at found

/-- A note whose first placeholder stands in a clause that counts powers. -/
def powersNote : String := "3 powers (%{spirit} max)/+%{strength / 2} Fighting"

def powersGraph : RuleGraph :=
  compileNotes standardPhrasings {} fightingName "X" [("arcana", powersNote)]

def powersSelection : Selection :=
  {("features.X", .number 1), ("spirit", .number 8), ("strength", .number 10)}

/-- A clause that counts powers is compiled without its placeholder, so what the rendering shows for
that one is the value of the next. -/
theorem placeholders_powersNote :
    compileFeature standardPhrasings {} fightingName "X" ["arcana"] [powersNote] =
      .ok powersGraph ∧
    Segment.placeholder 1 ⟨40, "spirit".toList⟩ ∈ segments 1 powersNote.toList ∧
    (compiledParts "X" "arcana" powersNote).map (fun x => (x.number, x.left, x.text)) =
      [(1, 24, "strength / 2")] ∧
    powersGraph.hasTarget "arcanaNotes.x.1" = true ∧
    render powersNote "arcanaNotes.x" (powersGraph.evaluate powersSelection) =
      some "3 powers (5 max)/+5 Fighting" := by
  exact ⟨rfl, by decide +kernel, by decide +kernel, by decide +kernel, by decide +kernel⟩

end CharacterRules.Note
