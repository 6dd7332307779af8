import CharacterRules.Proofs.Prerequisite.Reading
import CharacterRules.Proofs.Trait.Entry
import CharacterRules.Trait.Registration

/-!
The registration of entries. An entry that cannot be read fails before anything is registered. Behind
that no step can fail: what each of them reads is what the entry was read for, or a text made of its
numbers. So an entry either leaves the graph as it is or adds all that its trait registers.
-/

namespace CharacterRules

namespace RegisterM

variable {α β : Type}

theorem outcome_bind (steps : RegisterM α) (next : α → RegisterM β) (g : RuleGraph) :
    (steps >>= next).outcome g = match steps.outcome g with
      | (.ok a, after) => (next a).outcome after
      | (.error fault, after) => (.error fault, after) := by
  simp only [outcome, ExceptT.run_bind, StateT.run_bind]
  obtain ⟨result, after, ran⟩ : ∃ result after, steps.run.run g = (result, after) := ⟨_, _, rfl⟩
  rw [ran]
  cases result with
  | ok a => rfl
  | error fault => rfl

/-- Steps that end without a fault at a result and a graph. -/
def Yields (steps : RegisterM α) (g : RuleGraph) (a : α) (after : RuleGraph) : Prop :=
  steps.outcome g = (.ok a, after)

namespace Yields

theorem pure (a : α) (g : RuleGraph) : Yields (pure a) g a g := rfl

theorem bind {steps : RegisterM α} {next : α → RegisterM β} {g g' g'' : RuleGraph} {a : α} {b : β}
    (first : Yields steps g a g') (later : Yields (next a) g' b g'') :
    Yields (steps >>= next) g b g'' := by
  rw [Yields, outcome_bind, first]
  exact later

theorem lift {x : Except ContentError α} {a : α} (h : x = .ok a) (g : RuleGraph) :
    Yields (liftM x) g a g := by
  rw [h]
  rfl

theorem modify (f : RuleGraph → RuleGraph) (g : RuleGraph) :
    Yields (modify f) g PUnit.unit (f g) := rfl

theorem change {f : RuleGraph → Except ContentError RuleGraph} {g g' : RuleGraph}
    (h : f g = .ok g') : Yields (change f) g () g' := by
  unfold Yields outcome RegisterM.change ExceptT.run ExceptT.mk StateT.run
  dsimp only
  rw [h]

theorem rule {target source op : String} {formula : Option String} {r : Rule}
    (h : Rule.ofText target source op formula = .ok r) (g : RuleGraph) :
    Yields (rule target source op formula) g () (g.define r) :=
  .change (congrArg (Except.map g.define) h)

theorem fact {kind name gate : String} {tests : List String} {p : Prerequisite}
    (h : Prerequisite.ofTexts tests = .ok p) (g : RuleGraph) :
    Yields (fact kind name gate tests) g () (g.defineFact (RuleGraph.factKey kind name) gate p) := by
  refine .change ?_
  rw [RuleGraph.defineFactText, h]

end Yields

end RegisterM

namespace Trait

open RegisterM Prerequisite

/-- The graph with a fact of a trait, if there is a requirement for it. -/
def report (t : Trait) (kind : String) (p : Option Prerequisite) (g : RuleGraph) : RuleGraph :=
  p.elim g (g.defineFact (t.factKey kind) t.selectedKey)

theorem registerFacts_eq (t : Trait) (g : RuleGraph) : t.registerFacts g =
    t.report "sanity" t.implies (t.report "validation" t.requires
      (t.report "sanity" t.strength? (t.report "validation" t.rank? g))) := by
  rw [registerFacts, facts]
  cases t.rank? <;> cases t.strength? <;> cases t.requires <;> cases t.implies <;> rfl

theorem ofTexts_atLeast {key : String} (plain : IsPlain key.toList) (n : Number) :
    ofTexts [key ++ " >= " ++ n.display] = .ok (atLeast key n) := by
  have text : key ++ " >= " ++ n.display =
      String.ofList (boundText key.toList n.display.toList) := by
    rw [← String.toList_inj, String.toList_ofList, String.toList_append, String.toList_append,
      List.append_assoc]
    rfl
  rw [text, ofTexts_boundText plain (isPlain_display n), boundComparison, String.ofList_toList]
  rfl

theorem yields_reportBelow {key : String} (plain : IsPlain key.toList) (kind fact gate : String)
    (n : Option Number) (g : RuleGraph) :
    Yields (reportBelow kind fact gate key n) g ()
      ((n.map (atLeast key)).elim g (g.defineFact (RuleGraph.factKey kind fact) gate)) := by
  cases n with
  | none => exact .pure () g
  | some n => exact .fact (ofTexts_atLeast plain n) g

theorem yields_reportUnmet {e : Entry} {field : String} {p : Option Prerequisite}
    (read : readRequirement e field = .ok p) (kind fact gate : String) (g : RuleGraph) :
    Yields (reportUnmet kind fact gate (e.values field)) g ()
      (p.elim g (g.defineFact (RuleGraph.factKey kind fact) gate)) := by
  unfold readRequirement at read
  cases tests : e.values field with
  | nil =>
      rw [tests] at read
      obtain rfl := Except.ok.inj read
      exact .pure () g
  | cons first rest =>
      rw [tests] at read
      dsimp only at read
      cases found : ofTexts (first :: rest) with
      | error fault =>
          rw [found] at read
          cases read
      | ok q =>
          rw [found] at read
          obtain rfl : some q = p := Except.ok.inj read
          exact .fact found g

theorem yields_rule {text : String} {op : Operator} (known : Operator.ofText text = .ok op)
    {formula : Option String} {f : Formula} (reads : Rule.readFormula formula = .ok f)
    (target source : String) (g : RuleGraph) :
    Yields (rule target source text formula) g () (g.define ⟨target, source, op, f⟩) := by
  refine .rule ?_ g
  rw [Rule.ofText, known, reads]
  rfl

theorem readFormula_points (major : Bool) :
    Rule.readFormula (some (if major then "2" else "1")) =
      .ok (.literal (.number (if major then 2 else 1))) := by
  have trimmed : Text.trim (if major then "2" else "1") = if major then "2" else "1" := by
    cases major <;> decide
  have shown : ((if major then "2" else "1") == "null") = false := by
    cases major <;> decide
  have number : Number.ofText? (if major then "2" else "1") = some (if major then 2 else 1) := by
    cases major <;> decide
  rw [Rule.readFormula, Formula.parseRule, trimmed]
  dsimp only
  rw [shown, if_neg Bool.false_ne_true, number]
  rfl

theorem rank?_eq_none {t : Trait} (h : t.table ≠ "powers") : t.rank? = none := by
  rw [rank?, beq_eq_false_iff_ne.mpr h, if_neg Bool.false_ne_true]

section

variable {t : Trait} {table name : String} {e : Entry} (read : t.IsReading table name e)

include read

theorem yields_registerByTable (g : RuleGraph) :
    Yields (registerByTable table name e) g ()
      (t.report "validation" t.rank? (g.defineAll t.tableRules)) := by
  obtain rfl := read.table_eq
  obtain rfl := read.name_eq
  -- for each table, the rules of the whole trait are those that the steps define one by one
  unfold registerByTable
  dsimp only
  split
  · rename_i _ table
    have rules : t.tableRules = [t.passed t.featureKey .set, t.passed "edgesAllocated" .add] := by
      simp only [tableRules, table]
    rw [rules, rank?_eq_none (by simp [table])]
    exact .bind (yields_rule Operator.ofText_set rfl _ _ g) (yields_rule Operator.ofText_add rfl _ _ _)
  · rename_i _ table
    have rules : t.tableRules = [t.passed t.featureKey .set,
        t.constant "hindrancePoints" .add (if t.isMajor then 2 else 1)] := by
      simp only [tableRules, table]
    rw [rules, rank?_eq_none (by simp [table]), ← read.isMajor]
    exact .bind (yields_rule Operator.ofText_set rfl _ _ g)
      (yields_rule Operator.ofText_add (readFormula_points _) _ _ _)
  · rename_i _ table
    have rules : t.tableRules = (t.name :: t.features).map (racialFeature t.name) := by
      simp only [tableRules, table]
    rw [rules, rank?_eq_none (by simp [table]), read.features]
    exact .modify _ g
  · rename_i _ table
    have rules : t.tableRules = [t.passed "powersAllocated" .add] := by
      simp only [tableRules, table]
    have rank : t.rank? = (t.advances.filter fun n => Number.lt 0 n).map (atLeast "advances") := by
      simp [rank?, table]
    have fact : t.factKey "validation" =
        RuleGraph.factKey "validation" (Note.attributeKey t.name ++ "Power") := by
      simp only [factKey, table, factSuffix]
    rw [rules, rank, report, fact]
    exact .bind (yields_rule Operator.ofText_add rfl _ _ g) <| .bind (.lift read.advances _) <|
      yields_reportBelow (.of_all (by decide) (by decide)) _ _ _ _ _
  · rename_i _ table
    have rules : t.tableRules = (t.armor.map (t.constant "armor" .max)).toList := by
      simp only [tableRules, table]
    rw [rules, rank?_eq_none (by simp [table])]
    exact .bind (.lift read.armor g) (.modify _ g)
  · rename_i _ edges hindrances races powers armors
    have rules : t.tableRules = [] := by
      unfold tableRules
      split <;> first | rfl | contradiction
    rw [rules, rank?_eq_none powers]
    exact .pure () g

theorem yields_reportStrength (g : RuleGraph) :
    Yields (reportStrength table name e) g () (t.report "sanity" t.strength? g) := by
  obtain rfl := read.table_eq
  obtain rfl := read.name_eq
  rw [strength?, reportStrength]
  split
  · exact .bind (.lift read.minStrength g) <|
      yields_reportBelow (.of_all (by decide) (by decide)) _ _ _ _ g
  · exact .pure () g

theorem yields_noteValue {category : String} {more : List String}
    (sections : e.values "Section" = category :: more) (g : RuleGraph) :
    Yields (match e.value? "NoteValue" with
      | none => pure ()
      | some value =>
        RegisterM.rule (Note.noteKey category name) ("features." ++ name) "=" (some value)) g ()
      (g.defineAll t.noteValueRule?.toList) := by
  rw [noteValueRule?, read.sections, sections]
  cases present : e.value? "NoteValue" with
  | none =>
      rw [eq_none_of_readNoteValue read.noteValue present]
      exact .pure () g
  | some value =>
      obtain ⟨f, found, reads⟩ := exists_of_readNoteValue read.noteValue present
      obtain rfl := read.name_eq
      rw [found]
      exact yields_rule Operator.ofText_set reads _ _ g

theorem yields_registerEntryNotes (names : TargetNames) (g : RuleGraph) :
    Yields (registerEntryNotes names name e) g () (t.registerNotes names g) := by
  unfold registerEntryNotes
  rw [registerNotes]
  cases sections : e.values "Section" with
  | nil =>
      have own : t.sections = [] := read.sections.trans sections
      rw [noteValueRule?, own]
      exact .pure () g
  | cons category more =>
      have own : t.sections = category :: more := read.sections.trans sections
      have paired := read.paired
      rw [read.notes, own] at paired
      refine .bind (.change ?_) (yields_noteValue read sections _)
      rw [Note.compileFeature, if_neg (fun differ => differ paired), own, read.notes, read.name_eq]
      rfl

end

/-- Behind a reading that succeeds, the steps register all that the trait does. -/
theorem yields_registration {t : Trait} {table name : String} {e : Entry}
    (found : ofEntry table name e = .ok t) (names : TargetNames) (g : RuleGraph) :
    Yields (registration names table name e) g () (t.register names g) := by
  have read := isReading_of_ofEntry found
  -- The fact of a power's rank is the first of its facts, but the steps define it with the table's
  -- rules: what the table registers and what the facts do meet there.
  rw [register, registerFacts_eq]
  unfold registration
  refine .bind (a := ()) ?_ <| .bind (yields_registerByTable read g) <|
    .bind (yields_reportStrength read _) <| ?_
  · rw [found]
    rfl
  · obtain rfl := read.table_eq
    obtain rfl := read.name_eq
    exact .bind (yields_reportUnmet read.requires _ _ _ _) <|
      .bind (yields_reportUnmet read.implies _ _ _ _) (yields_registerEntryNotes read names _)

/-- An entry that cannot be read fails with that fault and leaves the graph; any other registers all
that its trait does. -/
theorem outcome_registration (names : TargetNames) (table name : String) (e : Entry)
    (g : RuleGraph) :
    (registration names table name e).outcome g = match ofEntry table name e with
      | .ok t => (.ok (), t.register names g)
      | .error fault => (.error fault, g) := by
  cases found : ofEntry table name e with
  | ok t => exact yields_registration found names g
  | error fault =>
      rw [registration, RegisterM.outcome_bind, found]
      rfl

end Trait
end CharacterRules
