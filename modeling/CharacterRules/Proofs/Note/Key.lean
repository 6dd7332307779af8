import CharacterRules.Note.Key
import CharacterRules.Proofs.Unicode.Case
import Std.Data.String.ToNat

/-!
Keys made from names: only letters and numerals of a name enter its key, so it has no point. The keys
of the numbered parts of a note end with digits.
-/

namespace CharacterRules.Note

theorem ne_point_of_alphanumeric {c : Char} (h : Unicode.alphanumeric.contains c = true) :
    c ≠ '.' := by
  rintro rfl
  exact absurd h (by decide +kernel)

theorem point_not_mem_camelChars (first capital : Bool) (text : List Char) :
    '.' ∉ camelChars first capital text := by
  induction text generalizing first capital with
  | nil => exact List.not_mem_nil
  | cons c rest ih =>
      rw [camelChars]
      split
      · exact ih first (!first)
      · rename_i letter
        have plain : c ≠ '.' := ne_point_of_alphanumeric (by simpa using letter)
        split
        · intro h
          cases List.mem_append.mp h with
          | inl mapped => exact Unicode.point_not_mem_toLower plain mapped
          | inr later => exact ih false false later
        · split
          · intro h
            cases List.mem_append.mp h with
            | inl mapped => exact Unicode.point_not_mem_toUpper plain mapped
            | inr later => exact ih false false later
          · intro h
            cases List.mem_cons.mp h with
            | inl same => exact plain same.symm
            | inr later => exact ih false false later

theorem point_not_mem_attributeKey (name : String) : '.' ∉ (attributeKey name).toList := by
  rw [attributeKey, String.toList_ofList]
  exact point_not_mem_camelChars true false name.toList

theorem isDigit_of_mem_toString {number : Nat} {c : Char} (h : c ∈ (toString number).toList) :
    c.isDigit = true := by
  have digits : (toString number).toList = Nat.toDigits 10 number := Nat.toList_repr
  rw [digits] at h
  exact Nat.isDigit_of_mem_toDigits (show 0 < 10 by decide) (show 10 ≤ 10 by decide) h

theorem point_not_mem_toString (number : Nat) : '.' ∉ (toString number).toList := fun member =>
  absurd (isDigit_of_mem_toString member) (by decide)

theorem toString_ne_nil (number : Nat) : (toString number).toList ≠ [] := by
  have digits : (toString number).toList = Nat.toDigits 10 number := Nat.toList_repr
  rw [digits]
  exact Nat.toDigits_ne_nil

/-- A number has one digit exactly if it is below ten. -/
theorem length_toString_le_one_iff {number : Nat} :
    (toString number).toList.length ≤ 1 ↔ number < 10 := by
  have digits : (toString number).toList = Nat.toDigits 10 number := Nat.toList_repr
  rw [digits]
  exact Nat.length_toDigits_le_iff (by decide) (by decide)

theorem toList_partKey (key : String) (number : Nat) :
    (partKey key number).toList = key.toList ++ '.' :: (toString number).toList := by
  simp [partKey]

theorem partKey_ne_small (note : String) (number : Nat) : partKey note number ≠ note ++ ".v" := by
  intro same
  have chars := congrArg String.toList same
  rw [toList_partKey, String.toList_append, List.append_cancel_left_eq] at chars
  have digits : (toString number).toList = ['v'] := (List.cons.inj chars).2
  have letter := isDigit_of_mem_toString (digits ▸ List.mem_singleton_self 'v')
  exact absurd letter (by decide)

/-- A key that ends with a letter is not that of a numbered part. -/
theorem ne_partKey_of_getLast? {key : String} {c : Char} (last : key.toList.getLast? = some c)
    (letter : c.isDigit = false) (note : String) (number : Nat) : key ≠ partKey note number := by
  rintro rfl
  rw [partKey, String.toList_append, List.getLast?_append,
    List.getLast?_eq_some_getLast (toString_ne_nil number), Option.some_or] at last
  have digit := isDigit_of_mem_toString (List.getLast_mem (toString_ne_nil number))
  rw [Option.some.inj last, letter] at digit
  cases digit

theorem ne_partKey_self (note : String) (number : Nat) : note ≠ partKey note number := by
  intro same
  have lengths := congrArg (·.toList.length) same
  simp [partKey] at lengths

/-- What stands behind the last point of a text, and what in front of it, are told by the text. -/
theorem append_point_inj {front front' back back' : List Char} (free : '.' ∉ back)
    (free' : '.' ∉ back') (h : front ++ '.' :: back = front' ++ '.' :: back') :
    front = front' ∧ back = back' := by
  have stop : ∀ {x y z : List Char}, '.' ∉ x → '.' :: x = z ++ '.' :: y → z = [] := by
    intro x y z none split
    cases z with
    | nil => rfl
    | cons c z =>
        refine absurd ?_ none
        rw [(List.cons.inj split).2]
        simp
  rcases List.append_eq_append_iff.mp h with ⟨z, longer, split⟩ | ⟨z, longer, split⟩
  · obtain rfl := stop free split
    exact ⟨by rw [longer, List.append_nil], (List.cons.inj split).2⟩
  · obtain rfl := stop free' split
    exact ⟨by rw [longer, List.append_nil], (List.cons.inj split).2.symm⟩

/-- The key of a part tells the key of its note and its number. -/
theorem eq_of_partKey_eq {key key' : String} {number number' : Nat}
    (h : partKey key number = partKey key' number') : key = key' ∧ number = number' := by
  have chars := congrArg String.toList h
  rw [toList_partKey, toList_partKey] at chars
  obtain ⟨keys, numbers⟩ :=
    append_point_inj (point_not_mem_toString number) (point_not_mem_toString number') chars
  exact ⟨String.toList_injective keys, Nat.repr_inj.mp (String.toList_injective numbers)⟩

theorem partKey_inj {note : String} {m n : Nat} (h : partKey note m = partKey note n) : m = n :=
  (eq_of_partKey_eq h).2

/-- What a single mark refers to is not the key of a part whose number has two digits. -/
theorem mark_ne_partKey {number : Nat} (many : 9 < number) (mark : Char) (key key' : String) :
    key ++ "." ++ String.singleton mark ≠ partKey key' number := by
  have shape : (key ++ "." ++ String.singleton mark).toList = key.toList ++ '.' :: [mark] := by simp
  cases digit : mark.isDigit with
  | false => exact ne_partKey_of_getLast? (by rw [shape]; simp) digit key' number
  | true =>
      intro same
      have chars := congrArg String.toList same
      rw [shape, toList_partKey] at chars
      have plain : '.' ∉ [mark] := by
        intro member
        rw [← List.mem_singleton.mp member] at digit
        cases digit
      have digits := (append_point_inj plain (point_not_mem_toString number) chars).2
      have short : (toString number).toList.length ≤ 1 := digits ▸ Nat.le_refl 1
      exact absurd (length_toString_le_one_iff.mp short) (Nat.not_lt.mpr many)

theorem noteKey_inj {category category' name : String}
    (h : noteKey category name = noteKey category' name) : category = category' := by
  have chars := congrArg String.toList h
  simp only [noteKey, String.toList_append, List.append_cancel_right_eq] at chars
  exact String.toList_injective chars

/-- No note of a trait has the key of a part of another one: in front of its last point is a letter. -/
theorem noteKey_ne_partKey (category name key : String) (number : Nat) :
    noteKey category name ≠ partKey (noteKey key name) number := by
  intro same
  have chars := congrArg String.toList same
  have shape : (noteKey category name).toList =
      (category ++ "Notes").toList ++ '.' :: (attributeKey name).toList := by
    simp [noteKey]
  rw [shape, toList_partKey] at chars
  obtain ⟨front, digits⟩ :=
    append_point_inj (point_not_mem_attributeKey name) (point_not_mem_toString number) chars
  have ends := congrArg List.getLast? front
  have whole : (noteKey key name).toList = (key ++ "Notes.").toList ++ (attributeKey name).toList := by
    rw [noteKey, String.toList_append]
  rw [whole, digits, List.getLast?_append, List.getLast?_eq_some_getLast (toString_ne_nil number),
    Option.some_or, String.toList_append, List.getLast?_append] at ends
  have digit := isDigit_of_mem_toString (List.getLast_mem (toString_ne_nil number))
  rw [← Option.some.inj ends] at digit
  exact absurd digit (by decide)

/-- How often the letter o is in a text, in either case. -/
def countO (text : List Char) : Nat := text.countP fun c => c == 'o' || c == 'O'

theorem countO_append (text more : List Char) : countO (text ++ more) = countO text + countO more :=
  List.countP_append

theorem countO_le_camelChars (first capital : Bool) (text : List Char) :
    countO text ≤ countO (camelChars first capital text) := by
  induction text generalizing first capital with
  | nil => exact Nat.le_refl 0
  | cons c rest ih =>
      have split : countO (c :: rest) = countO [c] + countO rest := countO_append [c] rest
      have kept : ∀ cased, countO [c] ≤ countO cased →
          countO (c :: rest) ≤ countO (cased ++ camelChars false false rest) := by
        intro cased own
        rw [split, countO_append]
        exact Nat.add_le_add own (ih false false)
      -- case mapping keeps an ASCII letter, and a letter is never dropped
      have letters : countO [c] ≤ countO (Unicode.toLower c) ∧ countO [c] ≤ countO (Unicode.toUpper c) := by
        by_cases letter : c = 'o' ∨ c = 'O'
        · obtain rfl | rfl := letter <;> decide
        · have none : countO [c] = 0 := by simpa [countO] using letter
          rw [none]
          exact ⟨Nat.zero_le _, Nat.zero_le _⟩
      rw [camelChars]
      split
      · rename_i dropped
        have none : countO [c] = 0 := by
          refine List.countP_eq_zero.mpr fun d member letter => ?_
          obtain rfl := List.mem_singleton.mp member
          obtain rfl | rfl := (Bool.or_eq_true_iff.mp letter).imp eq_of_beq eq_of_beq <;>
            exact absurd dropped (by decide +kernel)
        rw [split, none, Nat.zero_add]
        exact ih first (!first)
      · split
        · exact kept _ letters.1
        · split
          · exact kept _ letters.2
          · exact kept [c] (Nat.le_refl _)

/-- Neither the key of a note nor that of a part is the key of the feature: it has one more letter o
than the name, while the key of the feature has those of the name only. -/
theorem noteKey_append_ne (category name suffix : String) :
    noteKey category name ++ suffix ≠ "features." ++ name := by
  intro same
  have letters := congrArg (fun s : String => countO s.toList) same
  simp only [noteKey, attributeKey, String.toList_append, String.toList_ofList, countO_append] at letters
  have kept := countO_le_camelChars true false name.toList
  have own : countO "Notes.".toList = 1 := by decide
  have none : countO "features.".toList = 0 := by decide
  omega

end CharacterRules.Note
