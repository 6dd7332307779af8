import CharacterRules.Proofs.Note.Key
import CharacterRules.Trait.Registration

/-!
The keys of the facts that report what traits require. They share a beginning and the endings that
their tables give, which no other key of the rules has, save the key of a note.
-/

namespace CharacterRules

/-- The last three characters of a key, the last one first. -/
def keyEnding (key : String) : List Char := key.toList.reverse.take 3

theorem keyEnding_append (a : String) {b : String} (long : 3 ≤ b.toList.length) :
    keyEnding (a ++ b) = keyEnding b := by
  rw [keyEnding, keyEnding, String.toList_append, List.reverse_append,
    List.take_append_of_le_length (by rwa [List.length_reverse])]

/-- The endings that tables give to facts. -/
def factEndings : List (List Char) :=
  ["Edge", "Hindrance", "Race", "Power", "Weapon", "Armor", "Skill", "Feature"].map keyEnding

theorem keyEnding_factSuffix (a table : String) :
    keyEnding (a ++ Trait.factSuffix table) ∈ factEndings := by
  have suffix : 3 ≤ (Trait.factSuffix table).toList.length ∧
      keyEnding (Trait.factSuffix table) ∈ factEndings := by
    unfold Trait.factSuffix
    split <;> decide
  rw [keyEnding_append a suffix.1]
  exact suffix.2

/-- Whether a key is that of a fact about what the traits of some name and table require. -/
def IsRequirementKey (key : String) : Prop :=
  ∃ name table, key = RuleGraph.factKey "validation"
    (Note.attributeKey name ++ Trait.factSuffix table)

namespace IsRequirementKey

variable {key : String} (h : IsRequirementKey key)

include h

theorem toList_eq : ∃ rest, key.toList = "validationNotes.".toList ++ rest := by
  obtain ⟨name, table, rfl⟩ := h
  exact ⟨(Note.attributeKey name ++ Trait.factSuffix table).toList, by
    rw [RuleGraph.factKey, String.toList_append]
    rfl⟩

theorem isFactKey : isFactKey key = true := by
  obtain ⟨rest, split⟩ := h.toList_eq
  have second : Text.startsWith key "validationNotes." = true := by
    rw [Text.startsWith, split]
    rfl
  rw [CharacterRules.isFactKey, factSections, List.any_cons, List.any_cons, second]
  simp

theorem capital_mem : 'N' ∈ key.toList := by
  obtain ⟨rest, split⟩ := h.toList_eq
  rw [split]
  exact List.mem_append_left _ (by decide)

theorem point_mem : '.' ∈ key.toList := by
  obtain ⟨rest, split⟩ := h.toList_eq
  rw [split]
  exact List.mem_append_left _ (by decide)

theorem keyEnding_mem : keyEnding key ∈ factEndings := by
  obtain ⟨name, table, rfl⟩ := h
  rw [RuleGraph.factKey, ← String.append_assoc]
  exact keyEnding_factSuffix _ table

theorem ne_of_head {other : String} (head : other.toList.head? ≠ some 'v') : other ≠ key := by
  rintro rfl
  obtain ⟨rest, split⟩ := h.toList_eq
  rw [split] at head
  exact head rfl

/-- No text that begins with another letter is such a key, whatever follows. -/
theorem ne_append_of_head {start : String} {letter : Char}
    (head : start.toList.head? = some letter) (other : letter ≠ 'v') (rest : String) :
    start ++ rest ≠ key := by
  refine h.ne_of_head ?_
  rw [String.toList_append, List.head?_append, head, Option.some_or]
  exact fun same => other (Option.some.inj same)

theorem ne_append (a : String) {b : String} (long : 3 ≤ b.toList.length)
    (differs : keyEnding b ∉ factEndings) : a ++ b ≠ key := by
  rintro rfl
  have ends := h.keyEnding_mem
  rw [keyEnding_append a long] at ends
  exact differs ends

theorem ne_lowercase (text : String) : Unicode.lowercase text ≠ key := by
  rintro rfl
  exact Unicode.capital_not_mem_lowercase (by decide) text h.capital_mem

theorem ne_attributeKey (name : String) : Note.attributeKey name ≠ key := by
  rintro rfl
  exact Note.point_not_mem_attributeKey name h.point_mem

/-- The parts of a note end with a number. -/
theorem ne_partKey (note : String) (number : Nat) : Note.partKey note number ≠ key := by
  rintro rfl
  have digits : (toString number).toList = Nat.toDigits 10 number := Nat.toList_repr
  have shape : (Note.partKey note number).toList =
      (note ++ ".").toList ++ Nat.toDigits 10 number := by
    rw [Note.partKey, String.toList_append, digits]
  obtain ⟨last, hlast⟩ : ∃ last, (Nat.toDigits 10 number).reverse.head? = some last := by
    cases found : (Nat.toDigits 10 number).reverse with
    | nil => exact absurd (List.reverse_eq_nil_iff.mp found) Nat.toDigits_ne_nil
    | cons last rest => exact ⟨last, rfl⟩
  have digit : last.isDigit = true := by
    have member := List.mem_reverse.mp (List.mem_of_head? hlast)
    exact Note.isDigit_of_mem_toString (digits ▸ member)
  have ends : (keyEnding (Note.partKey note number)).head? = some last := by
    rw [keyEnding, shape, List.reverse_append, List.head?_take]
    simp [hlast]
  have letters : ∀ ending ∈ factEndings, ∀ c, ending.head? = some c → c.isDigit = false := by
    have checked : ∀ ending ∈ factEndings, (ending.head?.all fun c => !c.isDigit) = true := by
      decide
    intro ending member c hc
    have all := checked ending member
    rw [hc] at all
    simpa using all
  rw [letters _ h.keyEnding_mem last ends] at digit
  cases digit

end IsRequirementKey
end CharacterRules
