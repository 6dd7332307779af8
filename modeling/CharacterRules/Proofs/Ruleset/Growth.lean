import CharacterRules.Proofs.Note.Outline
import CharacterRules.Proofs.Ruleset.Issues

/-!
The growth of a compiled graph. Catalogs are compiled by calls that register something, and none of them
takes away what is written already. So what the shared rules write, every compiled catalog writes.
-/

namespace CharacterRules

namespace RuleGraph

/-- Whether calls lead from one graph to another. -/
def Grows (g g' : RuleGraph) : Prop := ∃ history : List Registration, history.foldl Registration.apply g = g'

theorem hasTarget_define_self (g : RuleGraph) (r : Rule) : (g.define r).hasTarget r.target = true := by
  rw [define]
  split
  · rename_i known
    obtain ⟨s, member, -⟩ := List.any_eq_true.mp known
    cases written : g.hasTarget r.target with
    | true => rfl
    | false =>
        have absent : g.positions.getD r.target #[] = #[] :=
          Std.TreeMap.getD_eq_fallback_of_contains_eq_false written
        rw [rulesFor, absent] at member
        cases member
  · exact Std.TreeMap.contains_insert_self

namespace Grows

variable {g g' g'' : RuleGraph}

theorem refl (g : RuleGraph) : Grows g g := ⟨[], rfl⟩

theorem trans (h : Grows g g') (h' : Grows g' g'') : Grows g g'' := by
  obtain ⟨history, rfl⟩ := h
  obtain ⟨more, rfl⟩ := h'
  exact ⟨history ++ more, List.foldl_append⟩

theorem apply (g : RuleGraph) (x : Registration) : Grows g (x.apply g) := ⟨[x], rfl⟩

theorem foldl {α : Type} {step : RuleGraph → α → RuleGraph} (each : ∀ g x, Grows g (step g x))
    (items : List α) (g : RuleGraph) : Grows g (items.foldl step g) := by
  induction items generalizing g with
  | nil => exact refl g
  | cons x rest ih => exact (each g x).trans (ih (step g x))

theorem defineAll (g : RuleGraph) (rules : List Rule) : Grows g (g.defineAll rules) :=
  foldl (fun g r => apply g (.rule r)) rules g

theorem built (h : Grows g g') (built : g.Built) : g'.Built := by
  obtain ⟨history, rfl⟩ := h
  exact List.foldlRecOn history _ built fun g built x _ => built.apply x

/-- What is written stays so. -/
theorem hasTarget (h : Grows g g') {key : String} (written : g.hasTarget key = true) :
    g'.hasTarget key = true := by
  obtain ⟨history, rfl⟩ := h
  refine List.foldlRecOn (motive := fun g : RuleGraph => g.hasTarget key = true) history _ written
    fun g written x _ => ?_
  cases x with
  | rule r => exact hasTarget_define_of_hasTarget written r
  | note key text => exact written
  | requirement key p => exact written
  | fact key gate p => exact hasTarget_defineAll_of_hasTarget written _
  | order => exact written

end Grows

end RuleGraph

open RuleGraph

theorem Note.grows_compileNotes (phrasings : List Phrasing) (g : RuleGraph) (names : TargetNames)
    (name : String) (notes : List (String × String)) :
    Grows g (compileNotes phrasings g names name notes) := by
  rw [compileNotes_eq]
  exact (Grows.defineAll g _).trans
    (.foldl (fun g note => .apply g (.note (noteKey note.1 name) note.2)) notes _)

namespace Trait

variable (t : Trait) (names : TargetNames) (g : RuleGraph)

theorem grows_registerFacts : Grows g (t.registerFacts g) := by
  rw [registerFacts]
  refine .foldl (fun g f => ?_) t.facts g
  obtain ⟨kind, p⟩ := f
  exact .apply g (.fact (t.factKey kind) t.selectedKey p)

theorem grows_registerNotes : Grows g (t.registerNotes names g) := by
  rw [registerNotes]
  split
  · exact .defineAll g _
  · exact (Note.grows_compileNotes _ g names t.name _).trans (.defineAll _ _)

theorem grows_register : Grows g (t.register names g) :=
  ((Grows.defineAll g t.tableRules).trans (t.grows_registerFacts _)).trans
    (t.grows_registerNotes names _)

end Trait

namespace Ruleset

theorem exists_of_defineTexts_cons {x : RuleText} {rest : List RuleText} {g g' : RuleGraph}
    (h : g.defineTexts (x :: rest) = .ok g') :
    ∃ r : Rule, r.target = x.target ∧ (g.define r).defineTexts rest = .ok g' := by
  obtain ⟨m, first, later⟩ := exists_of_bind_eq_ok h
  obtain ⟨r, read, rfl⟩ := map_eq_ok_iff.mp
    (show (Rule.ofText x.target x.source x.op x.formula).map g.define = .ok m from first)
  refine ⟨r, ?_, later⟩
  obtain ⟨op, -, read⟩ := exists_of_bind_eq_ok read
  obtain ⟨formula, -, read⟩ := exists_of_bind_eq_ok read
  rw [← Except.ok.inj read]

theorem grows_defineTexts {texts : List RuleText} {g g' : RuleGraph}
    (h : g.defineTexts texts = .ok g') :
    Grows g g' ∧ ∀ x ∈ texts, g'.hasTarget x.target = true := by
  induction texts generalizing g with
  | nil =>
      obtain rfl := Except.ok.inj h
      exact ⟨.refl g, List.forall_mem_nil _⟩
  | cons x rest ih =>
      obtain ⟨r, target, later⟩ := exists_of_defineTexts_cons h
      obtain ⟨grows, written⟩ := ih later
      refine ⟨(Grows.apply g (.rule r)).trans grows, List.forall_mem_cons.mpr ⟨?_, written⟩⟩
      exact grows.hasTarget (target ▸ g.hasTarget_define_self r)

theorem grows_registerTraits (names : TargetNames) (g : RuleGraph) (c : Catalog) :
    Grows g (registerTraits names g c).1 := by
  have entries : ∀ (all : List (String × String × Entry)) (g : RuleGraph) (issues : List Issue),
      Grows g (all.foldl (fun state x => addEntry names state.1 state.2 x.1 x.2.1 x.2.2)
        (g, issues)).1 := by
    intro all
    induction all with
    | nil => exact fun g issues => .refl g
    | cons entry rest ih =>
        obtain ⟨table, name, e⟩ := entry
        intro g issues
        rw [List.foldl_cons]
        dsimp only
        rw [addEntry_eq]
        cases Trait.ofEntry table name e with
        | error fault => exact ih g _
        | ok t => exact (t.grows_register names g).trans (ih _ issues)
  exact entries c.knownEntries g []

theorem graph_of_ofCatalog {c : Catalog} {r : Ruleset} (compiled : Ruleset.ofCatalog c = .ok r) :
    ∃ g, defineTexts {} (baseRules c) = .ok g ∧
      r.graph = (registerTraits (targetNames c) g c).1.withOrder := by
  obtain ⟨g, base, rest⟩ := exists_of_bind_eq_ok compiled
  refine ⟨g, base, ?_⟩
  rw [← Except.ok.inj rest]
  rfl

theorem catalog_of_ofCatalog {c : Catalog} {r : Ruleset} (compiled : Ruleset.ofCatalog c = .ok r) :
    r.catalog = c := by
  obtain ⟨g, -, rest⟩ := exists_of_bind_eq_ok compiled
  rw [← Except.ok.inj rest]

/-- A compiled graph is made by calls, and it writes what the shared rules write. -/
theorem built_of_ofCatalog {c : Catalog} {r : Ruleset} (compiled : Ruleset.ofCatalog c = .ok r) :
    r.graph.Built ∧ ∀ x ∈ baseRules c, r.graph.hasTarget x.target = true := by
  obtain ⟨g, base, graph⟩ := graph_of_ofCatalog compiled
  obtain ⟨shared, written⟩ := grows_defineTexts base
  have later : Grows g r.graph := by
    rw [graph]
    exact (grows_registerTraits (targetNames c) g c).trans (.apply _ .order)
  exact ⟨(shared.trans later).built built_empty, fun x member => later.hasTarget (written x member)⟩

/-- Whether the rules of a ruleset are those that its catalog is compiled to; its settings may be any. -/
def IsCompiled (r : Ruleset) : Prop := ∃ r', ofCatalog r.catalog = .ok r' ∧ r.graph = r'.graph

theorem isCompiled_of_ofCatalog {c : Catalog} {r : Ruleset} (compiled : Ruleset.ofCatalog c = .ok r) :
    r.IsCompiled :=
  ⟨r, (catalog_of_ofCatalog compiled).symm ▸ compiled, rfl⟩

namespace IsCompiled

variable {r : Ruleset} (h : r.IsCompiled)

include h

theorem built : r.graph.Built := by
  obtain ⟨r', compiled, graph⟩ := h
  rw [graph]
  exact (built_of_ofCatalog compiled).1

theorem hasTarget {x : RuleText} (member : x ∈ baseRules r.catalog) :
    r.graph.hasTarget x.target = true := by
  obtain ⟨r', compiled, graph⟩ := h
  rw [graph]
  exact (built_of_ofCatalog compiled).2 x member

end IsCompiled

end Ruleset
end CharacterRules
