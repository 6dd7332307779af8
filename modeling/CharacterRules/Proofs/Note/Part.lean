import CharacterRules.Proofs.Note.Outline
import CharacterRules.Proofs.Rule.Reordering

/-!
Rules of numbered parts. No change is of a numbered part of a note, so what computes it are the rules
of the placeholders with its number, and nothing else.
-/

namespace CharacterRules.Note

/-- The rules of a placeholder are all apart: each but the first has a source of its own. -/
theorem pairwise_placeholderRules (part feature : String) (e : Expr) :
    (placeholderRules part feature e).Pairwise fun r s => (r == s) = false := by
  have apart : ∀ {r s : Rule}, r.op ≠ s.op ∨ r.source ≠ s.source → (r == s) = false := by
    intro r s differ
    rw [Bool.eq_false_iff]
    intro equal
    obtain ⟨-, source, op, -⟩ := Rule.beq_iff.mp equal
    rcases differ with h | h
    · exact h op
    · exact h source
  have sources : (Std.TreeSet.ofList e.references).toList.Pairwise (· ≠ ·) :=
    Std.TreeSet.distinct_toList.imp fun differ same => differ (compare_eq_iff_eq.mpr same)
  refine List.pairwise_cons.mpr ⟨fun s member => ?_, List.pairwise_map.mpr ?_⟩
  · obtain ⟨source, -, rfl⟩ := List.mem_map.mp member
    exact apart (.inl nofun)
  · split
    · exact List.pairwise_singleton _ _
    · exact sources.imp fun differ => apart (.inr differ)

section

variable (key feature : String)

theorem onto_partRules_cons (number : Nat) (x : Part) (parts : List Part) :
    RuleGraph.onto (partKey key number) (partRules key feature (x :: parts)) =
      (if x.number = number then placeholderRules (partKey key number) feature x.formula else []) ++
        RuleGraph.onto (partKey key number) (partRules key feature parts) := by
  rw [RuleGraph.onto, partRules, List.flatMap_cons, List.filter_append]
  refine congrArg (· ++ _) ?_
  split
  · rename_i own
    subst own
    exact List.filter_eq_self.mpr fun r member =>
      beq_iff_eq.mpr (target_of_mem_placeholderRules member)
  · rename_i other
    refine List.filter_eq_nil_iff.mpr fun r member own => ?_
    have same : partKey key x.number = partKey key number :=
      (target_of_mem_placeholderRules member).symm.trans (beq_iff_eq.mp own)
    exact other (partKey_inj same)

theorem onto_partRules_eq_nil {number : Nat} {parts : List Part}
    (others : ∀ x ∈ parts, x.number ≠ number) :
    RuleGraph.onto (partKey key number) (partRules key feature parts) = [] := by
  induction parts with
  | nil => rfl
  | cons x rest ih =>
      rw [onto_partRules_cons, if_neg (others x List.mem_cons_self),
        ih fun y member => others y (.tail x member)]
      rfl

end

/-- Whether a key is that of a count, or one that phrases can name. -/
def IsChangeable (names : TargetNames) (key : String) : Prop :=
  key = "powerCount" ∨ key = "powerPoints" ∨ names.IsNamed key

theorem isChangeable_of_mem_changesOf {phrasings : List Phrasing} {names : TargetNames}
    {g : RuleGraph} {name : String} {notes : List (String × String)} {d : PendingDelta}
    (h : d ∈ changesOf phrasings names g name notes) : IsChangeable names d.target := by
  have waiting := congrArg Progress.deltas
    (foldl_compileNote phrasings names name notes (p := ⟨g, []⟩) (.refl g))
  have changed : d ∈ (notes.foldl (fun p (category, note) =>
      compileNote phrasings names name ("features." ++ name) p category note) ⟨g, []⟩).deltas := by
    rw [waiting]
    exact h
  refine of_run (S := fun p p' => (∀ d ∈ p.deltas, IsChangeable names d.target) →
      ∀ d ∈ p'.deltas, IsChangeable names d.target)
    (fun _ => id) (fun first second all => second (first all)) ?_
    (steps_notes names phrasings name ("features." ++ name) notes ⟨g, []⟩)
    (List.forall_mem_nil _) d changed
  rintro p p' ⟨note, -, step⟩ all d member
  cases step with
  | shows op text => exact all d member
  | computes number e => exact all d member
  | changes new source op target =>
      obtain ⟨old, origin, same, -, -⟩ := PendingDelta.exists_of_mem_push member
      rw [same]
      rcases origin with rfl | waiting
      · exact target.imp_right (.imp_right fun ⟨_, named⟩ => TargetNames.isNamed_of_canonicalize named)
      · exact all old waiting

/-- Whether no key of a skill is that of a numbered part of a note. -/
def SparesParts (names : TargetNames) (key : String) : Prop :=
  ∀ skill ∈ names.skills, ∀ number,
    "skillStep." ++ skill ≠ partKey key number ∧ "skillModifier." ++ skill ≠ partKey key number

theorem append_ne_partKey {a b : String} {c : Char} (last : b.toList.getLast? = some c)
    (letter : c.isDigit = false) (key : String) (number : Nat) : a ++ b ≠ partKey key number := by
  refine ne_partKey_of_getLast? ?_ letter key number
  rw [String.toList_append, List.getLast?_append, last, Option.some_or]

/-- No change is of a numbered part of a note. -/
theorem IsChangeable.ne_partKey {names : TargetNames} {target key : String}
    (h : IsChangeable names target) (spares : SparesParts names key) (number : Nat) :
    target ≠ partKey key number := by
  rcases h with rfl | rfl | named
  · exact ne_partKey_of_getLast? (show _ = some 't' by decide) (by decide) key number
  · exact ne_partKey_of_getLast? (show _ = some 's' by decide) (by decide) key number
  · cases named with
    | skillStep skill known => exact (spares skill known number).1
    | step a => exact append_ne_partKey (show _ = some 'p' by decide) (by decide) key number
    | skillModifier skill known => exact (spares skill known number).2
    | modifier a => exact append_ne_partKey (show _ = some 'r' by decide) (by decide) key number
    | plain name =>
        intro same
        have plain := point_not_mem_attributeKey name
        rw [same] at plain
        simp [partKey] at plain

/-- Onto a numbered part of a note there are the rules of the placeholders with its number. -/
theorem rulesFor_compileNotes_part (phrasings : List Phrasing) {names : TargetNames}
    {name category : String} (note : String) (spares : SparesParts names (noteKey category name))
    (number : Nat) : (compileNotes phrasings {} names name [(category, note)]).rulesFor
        (partKey (noteKey category name) number) =
      (RuleGraph.onto (partKey (noteKey category name) number)
        (partRules (noteKey category name) ("features." ++ name)
          (partsOf phrasings name (category, note)))).foldl RuleGraph.register [] := by
  have changes : RuleGraph.onto (partKey (noteKey category name) number)
      ((changesOf phrasings names {} name [(category, note)]).map PendingDelta.rule) = [] := by
    refine List.filter_eq_nil_iff.mpr fun r member own => ?_
    obtain ⟨d, changed, rfl⟩ := List.mem_map.mp member
    exact (isChangeable_of_mem_changesOf changed).ne_partKey spares number (beq_iff_eq.mp own)
  have shown : ¬ (shownRule name (category, note)).target ==
      partKey (noteKey category name) number := fun own => ne_partKey_self _ number (beq_iff_eq.mp own)
  rw [compileNotes_eq, rulesFor_keepNotes, RuleGraph.consistent_empty.rulesFor_defineAll]
  rw [RuleGraph.onto] at changes ⊢
  rw [List.filter_append, changes, List.append_nil, List.flatMap_singleton, rulesOf,
    List.filter_cons_of_neg (p := fun r : Rule => r.target == _) shown]
  rfl

end CharacterRules.Note
