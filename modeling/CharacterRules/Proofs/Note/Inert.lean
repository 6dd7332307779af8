import CharacterRules.Proofs.Note.Key
import CharacterRules.Proofs.Note.Step
import CharacterRules.Proofs.Rule.Inert

/-!
Traits that are not chosen. All rules of a note wait for something: for the feature of the trait, for
the note or a numbered part of it, which in turn wait for the feature. So as long as the feature is
off, compiling a trait changes no attribute, whatever its notes say and whatever the rules are that
it adds to.
-/

namespace CharacterRules.Note

/-- The keys of the notes of a trait and of their numbered parts. -/
def IsNoteKey (name : String) (categories : List String) (key : String) : Prop :=
  ∃ category ∈ categories,
    key = noteKey category name ∨ ∃ number, key = partKey (noteKey category name) number

/-- A change that adds nothing to a sheet. -/
def PendingDelta.IsQuiet (sheet : Attributes) (d : PendingDelta) : Prop :=
  IsOff sheet d.source ∧ d.op ≠ .gate

/-- A step of a compilation that does nothing on a sheet. -/
structure Progress.Inert (own : String → Prop) (sheet : Attributes) (p p' : Progress) : Prop where
  graph : RuleGraph.Inert own sheet p.graph p'.graph
  deltas : (∀ d ∈ p.deltas, d.IsQuiet sheet) → ∀ d ∈ p'.deltas, d.IsQuiet sheet

namespace Progress.Inert

variable {own : String → Prop} {sheet : Attributes}

theorem refl (p : Progress) : Inert own sheet p p := ⟨.refl own sheet p.graph, id⟩

theorem trans {p p' p'' : Progress} (h : Inert own sheet p p') (h' : Inert own sheet p' p'') :
    Inert own sheet p p'' :=
  ⟨h.graph.trans h'.graph, fun quiet => h'.deltas (h.deltas quiet)⟩

end Progress.Inert

variable {own : String → Prop} {sheet : Attributes}

theorem Step.inert {names : TargetNames} {key feature : String} {small : Prop} {p p' : Progress}
    (h : Step names key feature small p p') (note : own key)
    (parts : ∀ number, own (partKey key number))
    (off : ∀ source, IsSource key feature small source → IsOff sheet source) :
    Progress.Inert own sheet p p' := by
  cases h with
  | shows op text =>
      have first : RuleGraph.Inert own sheet p.graph
          (p.graph.define ⟨key, feature, op, .passThrough⟩) :=
        .define p.graph (off feature .feature) fun _ => note
      exact ⟨first.trans (.defineNote _ key text), id⟩
  | computes number e =>
      refine ⟨.defineAll_of_shut p.graph (parts number) ?_ List.mem_cons_self rfl
        (off feature .feature), id⟩
      exact fun r hr => target_of_mem_placeholderRules hr
  | changes d source op target =>
      refine ⟨.refl own sheet p.graph, fun waiting e he => ?_⟩
      obtain ⟨old, origin, -, source', op'⟩ := PendingDelta.exists_of_mem_push he
      have quiet : old.IsQuiet sheet := by
        rcases origin with rfl | member
        · exact ⟨off old.source source, op⟩
        · exact waiting old member
      exact ⟨source' ▸ quiet.1, op' ▸ quiet.2⟩

theorem inert_compileNotes (phrasings : List Phrasing) (g : RuleGraph) (names : TargetNames)
    (name : String) (notes : List (String × String))
    (off : ∀ note ∈ notes, ∀ source, IsSource (noteKey note.1 name) ("features." ++ name)
      (NoteCountsSmall note.2) source → IsOff sheet source) :
    RuleGraph.Inert (IsNoteKey name (notes.map (·.1))) sheet g
      (compileNotes phrasings g names name notes) := by
  have each : ∀ p p', (∃ note ∈ notes, Step names (noteKey note.1 name) ("features." ++ name)
      (NoteCountsSmall note.2) p p') →
        Progress.Inert (IsNoteKey name (notes.map (·.1))) sheet p p' := by
    rintro p p' ⟨note, member, step⟩
    have listed : note.1 ∈ notes.map (·.1) := List.mem_map_of_mem member
    exact step.inert ⟨note.1, listed, .inl rfl⟩
      (fun number => ⟨note.1, listed, .inr ⟨number, rfl⟩⟩) (off note member)
  have compiled := of_run Progress.Inert.refl .trans each
    (steps_notes names phrasings name ("features." ++ name) notes ⟨g, []⟩)
  refine compiled.graph.trans (.defineAll _ fun r hr => ?_)
  obtain ⟨d, member, rfl⟩ := List.mem_map.mp hr
  exact compiled.deltas (by simp) d member

/-- A trait that is not chosen does nothing. Suppose that its notes and their numbered parts are
neither written by the rules of a graph nor set, and that a note which counts powers by the part that
a small letter stands for finds nothing there. Then compiling the trait, if that makes no circles,
leaves every attribute of the selection as it was. -/
theorem evaluate_compileFeature_of_unselected (phrasings : List Phrasing) (g : RuleGraph)
    (built : g.Built) (names : TargetNames) (name : String) (categories notes : List String)
    (paired : categories.length = notes.length) (selection : Selection)
    (unused : ∀ key, IsNoteKey name categories key →
      g.hasTarget key = false ∧ selection[key]? = none)
    (unselected : truthy (g.evaluate selection)["features." ++ name]? = false)
    (unread : ∀ note ∈ categories.zip notes, NoteCountsSmall note.2 →
      truthy (g.evaluate selection)[noteKey note.1 name ++ ".v"]? = false) :
    ∃ g', compileFeature phrasings g names name categories notes = .ok g' ∧
      (g'.IsAcyclic → ∀ key : String,
        (g'.evaluate selection)[key]? = (g.evaluate selection)[key]?) := by
  have listed : (categories.zip notes).map (·.1) = categories :=
    List.map_fst_zip (Nat.le_of_eq paired)
  have absent : ∀ key, IsNoteKey name categories key →
      truthy (g.evaluate selection)[key]? = false := by
    intro key mine
    obtain ⟨unwritten, unset⟩ := unused key mine
    rw [built.consistent.getElem?_evaluate_of_unwritten unwritten, unset]
    rfl
  have off : ∀ note ∈ categories.zip notes, ∀ source,
      IsSource (noteKey note.1 name) ("features." ++ name) (NoteCountsSmall note.2) source →
        IsOff (g.evaluate selection) source := by
    intro note member source kind
    have category : note.1 ∈ categories := (List.of_mem_zip member).1
    cases kind with
    | feature => exact ⟨by simp, unselected⟩
    | note => exact ⟨by simp [noteKey], absent _ ⟨note.1, category, .inl rfl⟩⟩
    | part number => exact ⟨by simp [partKey], absent _ ⟨note.1, category, .inr ⟨number, rfl⟩⟩⟩
    | small counts => exact ⟨by simp, unread note member counts⟩
  have inert := inert_compileNotes phrasings g names name (categories.zip notes) off
  rw [listed] at inert
  refine ⟨_, if_neg (not_not_intro paired), fun acyclic key => ?_⟩
  exact inert.getElem?_evaluate built.consistent acyclic unused key

/-- Names of an attribute, a skill and two statistics. -/
def someNames : TargetNames :=
  (((({} : TargetNames).addAttribute "Agility").addSkill "Fighting").addStat "toughness").addStat
    "pace"

/-- Points for two more steps of an attribute. -/
def boughtSteps : Selection := {("agilityAllocation", .number 2)}

theorem head_of_isNoteKey {key : String} (h : IsNoteKey "Iron Will" ["combat", "magic"] key) :
    key.toList.head? ≠ some 'a' := by
  have start : ∀ start rest : String, start.toList ≠ [] → start.toList.head? ≠ some 'a' →
      (start ++ rest).toList.head? ≠ some 'a' := by
    intro start rest nonempty head
    rwa [String.toList_append, List.head?_append_of_ne_nil _ nonempty]
  have each : ∀ category ∈ ["combat", "magic"], (noteKey category "Iron Will").toList ≠ [] ∧
      (noteKey category "Iron Will").toList.head? ≠ some 'a' := by
    decide +kernel
  obtain ⟨category, member, rfl | ⟨number, rfl⟩⟩ := h
  · exact (each category member).2
  · obtain ⟨nonempty, head⟩ := each category member
    rw [partKey, String.append_assoc]
    exact start _ _ nonempty head

/-- The rules of a trait that computes a part from a die, lowers the step of that die, and counts by
a value that its note shows. -/
def ironWillGraph : RuleGraph :=
  compileNotes standardPhrasings RuleGraph.stepGraph someNames "Iron Will"
    [("combat", "+%{agility / 2} Toughness/x2 Pace/-1 agility step"),
      ("magic", "%V new powers/+%2 Fighting")]

theorem evaluate_ironWillGraph : RuleGraph.stepGraph.Built ∧
    compileFeature standardPhrasings RuleGraph.stepGraph someNames "Iron Will" ["combat", "magic"]
      ["+%{agility / 2} Toughness/x2 Pace/-1 agility step", "%V new powers/+%2 Fighting"] =
        .ok ironWillGraph ∧
    ironWillGraph.IsAcyclic ∧ ironWillGraph.rules.size = RuleGraph.stepGraph.rules.size + 9 ∧
    ∀ key : String, (ironWillGraph.evaluate boughtSteps)[key]? =
      (RuleGraph.stepGraph.evaluate boughtSteps)[key]? := by
  have built : RuleGraph.stepGraph.Built := RuleGraph.built_empty.defineAll _
  have unused : ∀ key, IsNoteKey "Iron Will" ["combat", "magic"] key →
      RuleGraph.stepGraph.hasTarget key = false ∧ boughtSteps[key]? = none := by
    intro key mine
    have head := head_of_isNoteKey mine
    constructor
    · rw [← Bool.not_eq_true, ← RuleGraph.mem_targets]
      intro written
      have heads : ∀ key ∈ RuleGraph.stepGraph.targets, key.toList.head? = some 'a' := by
        decide
      exact head (heads key written)
    · have other : key ≠ "agilityAllocation" := by
        rintro rfl
        exact head (by decide)
      exact Attributes.getElem?_update_of_ne {} other (some (.number 2))
  have off : ∀ category ∈ ["combat", "magic"], truthy (RuleGraph.stepGraph.evaluate boughtSteps)[
      noteKey category "Iron Will" ++ ".v"]? = false := by
    decide +kernel
  obtain ⟨g', compiled, same⟩ := evaluate_compileFeature_of_unselected standardPhrasings
    RuleGraph.stepGraph built someNames "Iron Will" ["combat", "magic"]
    ["+%{agility / 2} Toughness/x2 Pace/-1 agility step", "%V new powers/+%2 Fighting"] rfl
    boughtSteps unused (by decide) fun note member _ => off note.1 (List.of_mem_zip member).1
  obtain rfl : ironWillGraph = g' := Except.ok.inj compiled
  have extended := built_of_compileFeature built compiled
  have acyclic := extended.consistent.isAcyclic_of_rank ironWillGraph.evaluationOrder.idxOf
    (by decide +kernel)
  exact ⟨built, compiled, acyclic, by decide +kernel, same acyclic⟩

/-- The rules of a trait whose note refers to its value by a small letter. -/
def smallGraph : RuleGraph :=
  compileNotes standardPhrasings {} {} "Foo" [("arcana", "%v powers")]

/-- A value under the part that the small letter stands for. -/
def smallPart : Selection := {("arcanaNotes.foo.v", .number 3)}

/-- A count of powers takes a small letter for a reference, too. What it reads then is neither the
note nor a numbered part, and can be there without the trait. -/
theorem evaluate_smallGraph :
    compileFeature standardPhrasings {} {} "Foo" ["arcana"] ["%v powers"] = .ok smallGraph ∧
    smallGraph.IsAcyclic ∧
    (∀ key, IsNoteKey "Foo" ["arcana"] key →
      RuleGraph.hasTarget {} key = false ∧ smallPart[key]? = none) ∧
    truthy (RuleGraph.evaluate {} smallPart)["features.Foo"]? = false ∧
    (RuleGraph.evaluate {} smallPart)["powerCount"]? = none ∧
    (smallGraph.evaluate smallPart)["powerCount"]? = some (.number 3) := by
  have compiled : compileFeature standardPhrasings {} {} "Foo" ["arcana"] ["%v powers"] =
      .ok smallGraph := rfl
  have built := built_of_compileFeature RuleGraph.built_empty compiled
  have acyclic := built.consistent.isAcyclic_of_rank smallGraph.evaluationOrder.idxOf
    (by decide +kernel)
  refine ⟨compiled, acyclic, fun key mine => ⟨rfl, ?_⟩, by decide, by decide,
    by decide +kernel⟩
  have small : noteKey "arcana" "Foo" ++ ".v" = "arcanaNotes.foo.v" := by decide +kernel
  refine Attributes.getElem?_update_of_ne {} ?_ (some (.number 3))
  obtain ⟨category, member, same⟩ := mine
  obtain rfl := List.mem_singleton.mp member
  rw [← small]
  rcases same with rfl | ⟨number, rfl⟩
  · decide +kernel
  · exact partKey_ne_small _ number

end CharacterRules.Note
