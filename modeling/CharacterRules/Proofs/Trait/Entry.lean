import CharacterRules.Proofs.Outcome
import CharacterRules.Trait.Basic

/-!
Entries that can be read. A reading that succeeds has gone through all of its steps, so what each of
them checks holds of the trait.
-/

namespace CharacterRules

theorem Operator.ofText_set : Operator.ofText "=" = .ok .set :=
  toOption_eq_some_iff.mp (by decide)

theorem Operator.ofText_add : Operator.ofText "+=" = .ok .add :=
  toOption_eq_some_iff.mp (by decide)

namespace Trait

/-- A trait has what the fields of its entry hold. -/
structure IsReading (t : Trait) (table name : String) (e : Entry) : Prop where
  table_eq : t.table = table
  name_eq : t.name = name
  advances : readNumber e "Advances" = .ok t.advances
  armor : readNumber e "Armor" = .ok t.armor
  minStrength : readNumber e "MinStr" = .ok t.minStrength
  sections : t.sections = e.values "Section"
  notes : t.notes = e.values "Note"
  paired : t.sections.length = t.notes.length
  requires : readRequirement e "Require" = .ok t.requires
  implies : readRequirement e "Imply" = .ok t.implies
  noteValue : readNoteValue table name e = .ok t.noteValue
  isMajor : t.isMajor = (e.value? "Severity" == some "Major")
  features : t.features = e.values "Features"

theorem eq_of_readSeverity {table name : String} {e : Entry} {isMajor : Bool}
    (h : readSeverity table name e = .ok isMajor) :
    isMajor = (e.value? "Severity" == some "Major") := by
  unfold readSeverity at h
  dsimp only at h
  split at h
  · cases h
  · exact (Except.ok.inj h).symm

theorem exists_of_readNoteValue {table name value : String} {e : Entry} {noteValue : Option Formula}
    (h : readNoteValue table name e = .ok noteValue) (present : e.value? "NoteValue" = some value) :
    ∃ f, noteValue = some f ∧ Rule.readFormula (some value) = .ok f := by
  unfold readNoteValue at h
  rw [present] at h
  dsimp only at h
  split at h
  · cases h
  · cases reads : Rule.readFormula (some value) with
    | error fault =>
        rw [reads] at h
        cases h
    | ok f =>
        rw [reads] at h
        exact ⟨f, (Except.ok.inj h).symm, rfl⟩

theorem eq_none_of_readNoteValue {table name : String} {e : Entry} {noteValue : Option Formula}
    (h : readNoteValue table name e = .ok noteValue) (absent : e.value? "NoteValue" = none) :
    noteValue = none := by
  unfold readNoteValue at h
  rw [absent] at h
  exact (Except.ok.inj h).symm

theorem isReading_of_ofEntry {table name : String} {e : Entry} {t : Trait}
    (h : ofEntry table name e = .ok t) : t.IsReading table name e := by
  rw [ofEntry] at h
  obtain ⟨advances, hadvances, h⟩ := exists_of_bind_eq_ok h
  obtain ⟨armor, harmor, h⟩ := exists_of_bind_eq_ok h
  obtain ⟨minStrength, hminStrength, h⟩ := exists_of_bind_eq_ok h
  dsimp only at h
  split at h
  · obtain ⟨_, stopped, -⟩ := exists_of_bind_eq_ok h
    cases stopped
  · rename_i paired
    obtain ⟨requires, hrequires, h⟩ := exists_of_bind_eq_ok h
    obtain ⟨implies, himplies, h⟩ := exists_of_bind_eq_ok h
    obtain ⟨noteValue, hnoteValue, h⟩ := exists_of_bind_eq_ok h
    obtain ⟨isMajor, hseverity, h⟩ := exists_of_bind_eq_ok h
    obtain rfl := Except.ok.inj h
    exact {
      table_eq := rfl, name_eq := rfl, advances := hadvances, armor := harmor
      minStrength := hminStrength, sections := rfl, notes := rfl
      paired := Decidable.not_not.mp paired, requires := hrequires, implies := himplies
      noteValue := hnoteValue, isMajor := eq_of_readSeverity hseverity, features := rfl }

end Trait
end CharacterRules
