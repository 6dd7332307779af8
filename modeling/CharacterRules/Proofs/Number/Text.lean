import CharacterRules.Number.Text

/-!
The characters of a number as it is shown. There are some, and none of them means anything to the
readers of requirements, so a number in their text stays in one piece.
-/

namespace CharacterRules.Number

/-- The characters that numbers are shown with. -/
def isShown (c : Char) : Bool := c.isDigit || "-.Nainf".toList.contains c

/-- A text that numbers could be shown with. -/
def IsShown (text : List Char) : Prop := text ≠ [] ∧ ∀ c ∈ text, isShown c = true

theorem isShown_of_isDigit {c : Char} (h : c.isDigit = true) : isShown c = true := by
  rw [isShown, h, Bool.true_or]

namespace IsShown

theorem of_all {text : List Char} (nonempty : text ≠ []) (h : text.all isShown = true) :
    IsShown text :=
  ⟨nonempty, List.all_eq_true.mp h⟩

theorem digits (n : Nat) : IsShown (Nat.toDigits 10 n) := by
  refine ⟨Nat.toDigits_ne_nil, fun c hc => ?_⟩
  exact isShown_of_isDigit (Nat.isDigit_of_mem_toDigits (by decide) (by decide) hc)

theorem append {a b : List Char} (ha : IsShown a) (hb : ∀ c ∈ b, isShown c = true) :
    IsShown (a ++ b) := by
  refine ⟨fun nothing => ha.1 (List.append_eq_nil_iff.mp nothing).1, fun c hc => ?_⟩
  obtain first | later := List.mem_append.mp hc
  · exact ha.2 c first
  · exact hb c later

theorem prepend {a b : List Char} (ha : ∀ c ∈ a, isShown c = true) (hb : IsShown b) :
    IsShown (a ++ b) := by
  refine ⟨fun nothing => hb.1 (List.append_eq_nil_iff.mp nothing).2, fun c hc => ?_⟩
  obtain first | later := List.mem_append.mp hc
  · exact ha c first
  · exact hb.2 c later

end IsShown

theorem isShown_of_mem_zeros {count : Nat} {c : Char} (h : c ∈ zeros count) : isShown c = true := by
  rw [List.eq_of_mem_replicate h]
  decide

theorem isShown_positional_decimal (d : Decimal) : IsShown d.positional := by
  have digits := IsShown.digits d.digits
  rw [Decimal.positional]
  dsimp only [Decimal.layout]
  split
  · refine .prepend (fun c hc => ?_) digits
    obtain rfl | rfl | zero := List.mem_cons.mp hc |>.imp_right List.mem_cons.mp
    · decide
    · decide
    · exact isShown_of_mem_zeros zero
  · split
    · exact digits.append fun c hc => isShown_of_mem_zeros hc
    · refine .prepend (fun c hc => digits.2 c (List.mem_of_mem_take hc)) ⟨List.cons_ne_nil _ _, ?_⟩
      rintro c (_ | ⟨_, hc⟩)
      · decide
      · exact digits.2 c (List.mem_of_mem_drop hc)

theorem isShown_signText (negative : Bool) : ∀ c ∈ (signText negative).toList, isShown c = true := by
  have checked : (signText negative).toList.all isShown = true := by cases negative <;> decide
  exact List.all_eq_true.mp checked

theorem isShown_positional (x : Number) : IsShown x.positional.toList := by
  cases x with
  | nan => exact .of_all (by decide) (by decide)
  | infinity negative =>
      rw [positional, String.toList_append]
      exact .prepend (isShown_signText negative) (.of_all (by decide) (by decide))
  | finite negative m e normal =>
      rw [positional, String.toList_append]
      refine .prepend (isShown_signText negative) ?_
      split
      · exact .of_all (by decide) (by decide)
      · rw [String.toList_ofList]
        exact isShown_positional_decimal _

theorem isShown_toString (n : Nat) : IsShown (toString n).toList := by
  rw [show (toString n).toList = Nat.toDigits 10 n from Nat.toList_repr]
  exact .digits n

/-- Every number is shown with some of the characters of numbers. -/
theorem isShown_display (x : Number) : IsShown x.display.toList := by
  rw [display]
  split
  · rename_i i _
    cases i with
    | ofNat n => exact isShown_toString n
    | negSucc n =>
        change IsShown ("-" ++ toString (n + 1)).toList
        rw [String.toList_append]
        exact .prepend (isShown_signText true) (isShown_toString (n + 1))
  · exact isShown_positional x

end CharacterRules.Number
