import CharacterRules.Proofs.Ruleset.Compile
import CharacterRules.Proofs.Trait.Registration

/-!
The errors of a catalog. The entries that registration leaves out are those that cannot be read, each
with the fault that its reading ends with, so a check of the catalog and its compilation report the
same errors.
-/

namespace CharacterRules

namespace Catalog

/-- The issues of the entries of known tables that cannot be read. -/
def entryIssues (c : Catalog) : List Issue :=
  c.knownEntries.filterMap fun (table, name, e) => entryIssue? table name e

theorem errors_eq (c : Catalog) : c.errors =
    c.rejected.map (fun x => ⟨.error, x.table, x.name, x.reason⟩) ++ c.entryIssues := rfl

theorem severity_of_mem_errors {c : Catalog} {i : Issue} (h : i ∈ c.errors) :
    i.severity = .error := by
  rw [errors_eq, entryIssues] at h
  obtain rejected | unreadable := List.mem_append.mp h
  · obtain ⟨x, -, rfl⟩ := List.mem_map.mp rejected
    rfl
  · obtain ⟨⟨table, name, e⟩, -, found⟩ := List.mem_filterMap.mp unreadable
    dsimp only [entryIssue?] at found
    cases read : Trait.ofEntry table name e with
    | ok t =>
        rw [read] at found
        cases found
    | error fault =>
        rw [read] at found
        obtain rfl := Option.some.inj found
        rfl

theorem severity_of_mem_tableWarnings {c : Catalog} {i : Issue} (h : i ∈ c.tableWarnings) :
    i.severity = .warning := by
  obtain unknown | missing := List.mem_append.mp h
  · obtain ⟨table, -, rfl⟩ := List.mem_map.mp unknown
    rfl
  · split at missing
    · obtain rfl := List.mem_singleton.mp missing
      rfl
    · cases missing

theorem severity_of_mem_entryWarnings {c : Catalog} {table : String} {check : Entry → List String}
    {i : Issue} (h : i ∈ c.entryWarnings table check) : i.severity = .warning := by
  simp only [entryWarnings, List.mem_flatMap, List.mem_map] at h
  obtain ⟨_, -, message, -, rfl⟩ := h
  rfl

/-- The errors of a catalog are in front of its warnings. -/
theorem filter_issues (c : Catalog) :
    c.issues.filter (fun i => i.severity = .error) = c.errors := by
  have kept : c.errors.filter (fun i => i.severity = .error) = c.errors :=
    List.filter_eq_self.mpr fun i hi => decide_eq_true (severity_of_mem_errors hi)
  have dropped {warnings : List Issue} (h : ∀ i ∈ warnings, i.severity = .warning) :
      warnings.filter (fun i => i.severity = .error) = [] := by
    refine List.filter_eq_nil_iff.mpr fun i hi => ?_
    rw [h i hi]
    decide
  rw [issues, List.filter_append, List.filter_append, List.filter_append, List.filter_append,
    List.filter_append, kept, dropped fun _ => severity_of_mem_tableWarnings,
    dropped fun _ => severity_of_mem_entryWarnings, dropped fun _ => severity_of_mem_entryWarnings,
    dropped fun _ => severity_of_mem_entryWarnings, dropped fun _ => severity_of_mem_entryWarnings]
  simp only [List.append_nil]

end Catalog

namespace Ruleset

theorem addEntry_eq (names : TargetNames) (g : RuleGraph) (issues : List Issue)
    (table name : String) (e : Entry) : addEntry names g issues table name e =
      match Trait.ofEntry table name e with
      | .ok t => (t.register names g, issues)
      | .error fault => (g, issues ++ [.ofError table name fault]) := by
  rw [addEntry, Trait.outcome_registration]
  cases Trait.ofEntry table name e <;> rfl

theorem snd_addEntries (names : TargetNames) (entries : List (String × String × Entry))
    (g : RuleGraph) (issues : List Issue) :
    (entries.foldl (fun (g, issues) (table, name, e) => addEntry names g issues table name e)
      (g, issues)).2 =
      issues ++ entries.filterMap fun (table, name, e) => Catalog.entryIssue? table name e := by
  induction entries generalizing g issues with
  | nil => exact (List.append_nil issues).symm
  | cons entry rest ih =>
      obtain ⟨table, name, e⟩ := entry
      rw [List.foldl_cons, List.filterMap_cons]
      dsimp only
      rw [addEntry_eq, Catalog.entryIssue?]
      cases Trait.ofEntry table name e with
      | ok t => exact ih _ _
      | error fault =>
          refine (ih _ _).trans ?_
          rw [List.append_assoc]
          rfl

theorem issues_of_ofCatalog {c : Catalog} {r : Ruleset} (compiled : ofCatalog c = .ok r) :
    r.issues = c.entryIssues := by
  obtain ⟨g, -, rest⟩ := exists_of_bind_eq_ok compiled
  rw [← Except.ok.inj rest]
  exact snd_addEntries (targetNames c) c.knownEntries g []

/-- An entry is registered with a fault exactly if its reading ends with that fault, and then the graph
is left as it was. So the errors of a catalog that compiles are the entries rejected while loading
and then those that its compilation left out. -/
theorem registration_fails_as_read :
    (∀ (names : TargetNames) (table name : String) (e : Entry) (g : RuleGraph),
      (∀ fault, ((Trait.registration names table name e).outcome g).1 = .error fault ↔
        Trait.ofEntry table name e = .error fault) ∧
      ∀ fault, Trait.ofEntry table name e = .error fault →
        ((Trait.registration names table name e).outcome g).2 = g) ∧
    ∀ (c : Catalog) (r : Ruleset), ofCatalog c = .ok r →
      c.issues.filter (fun i => i.severity = .error) =
        c.rejected.map (fun x => ⟨.error, x.table, x.name, x.reason⟩) ++ r.issues := by
  refine ⟨fun names table name e g => ?_, fun c r compiled => ?_⟩
  · rw [Trait.outcome_registration]
    cases Trait.ofEntry table name e with
    | ok t => exact ⟨fun fault => ⟨nofun, nofun⟩, nofun⟩
    | error own =>
        refine ⟨fun fault => ?_, fun _ _ => rfl⟩
        dsimp only
        rw [Except.error.injEq, Except.error.injEq]
  · rw [Catalog.filter_issues, Catalog.errors_eq, issues_of_ofCatalog compiled]

/-- An edge that can be read, one whose requirement lacks its number, and one whose text breaks off. -/
def faultyEdges : Catalog :=
  .ofSource {("edges", {("Brawny", "Require=\"strength >= 8\""), ("Quick", "Require=\"agility >=\""),
    ("Torn", "Require=\"agility")})}

/-- One edge is rejected while loading and one is left out, and both are errors of the catalog. To
register the latter once more changes nothing. -/
theorem errors_faultyEdges : ∃ r, ofCatalog faultyEdges = .ok r ∧
    faultyEdges.rejected.length = 1 ∧ r.issues.length = 1 ∧
    faultyEdges.issues.filter (fun i => i.severity = .error) =
      faultyEdges.rejected.map (fun x => ⟨.error, x.table, x.name, x.reason⟩) ++ r.issues ∧
    ∃ e fault, faultyEdges.entry? "edges" "Quick" = some e ∧
      Trait.ofEntry "edges" "Quick" e = .error fault ∧
      (Trait.registration r.names "edges" "Quick" e).outcome r.graph = (.error fault, r.graph) := by
  have fit : KeysFit faultyEdges := by decide +kernel
  obtain ⟨r, compiled⟩ := (exists_ofCatalog_iff faultyEdges).mpr fun _ hx =>
    isReadable_of_mem_baseRules fit hx
  have left : faultyEdges.entryIssues.length = 1 := by decide +kernel
  have quick : (faultyEdges.entry? "edges" "Quick").any (fun e =>
      !(Trait.ofEntry "edges" "Quick" e).isOk) = true := by decide +kernel
  simp only [Option.any_eq_true] at quick
  obtain ⟨e, entry, unread⟩ := quick
  cases read : Trait.ofEntry "edges" "Quick" e with
  | ok t =>
      rw [read] at unread
      cases unread
  | error fault =>
      obtain ⟨fails, listed⟩ := registration_fails_as_read
      obtain ⟨same, stays⟩ := fails r.names "edges" "Quick" e r.graph
      have issues : r.issues.length = 1 := by rw [issues_of_ofCatalog compiled, left]
      exact ⟨r, compiled, by decide +kernel, issues, listed faultyEdges r compiled, e, fault, entry,
        read, Prod.ext ((same fault).mpr read) (stays fault read)⟩

end Ruleset
end CharacterRules
