import CharacterRules.Proofs.Number.Step

/-!
The sign of a difference. Rounding keeps the sign of the exact difference, so a difference tells
which of two numbers is the larger one.
-/

namespace CharacterRules.Number

theorem signed_not (n : Bool) (m : Nat) : signed (!n) m = -signed n m := by
  cases n <;> simp [signed]

theorem align_swap {m₁ m₂ a b : Nat} {e₁ e₂ e : Int} (h : align m₁ e₁ m₂ e₂ = (a, b, e)) :
    align m₂ e₂ m₁ e₁ = (b, a, e) := by
  simp only [align] at h ⊢
  rcases Int.lt_trichotomy e₁ e₂ with below | rfl | above
  · rw [if_neg (by omega), if_pos below] at h
    rw [if_neg (by omega), if_neg (by omega)]
    cases h
    rfl
  · rw [if_pos rfl] at h ⊢
    cases h
    rfl
  · rw [if_neg (by omega), if_neg (by omega)] at h
    rw [if_neg (by omega), if_pos above]
    cases h
    rfl

theorem le_of_align {m₁ m₂ a b : Nat} {e₁ e₂ e bound : Int} (h : align m₁ e₁ m₂ e₂ = (a, b, e))
    (h₁ : bound ≤ e₁) (h₂ : bound ≤ e₂) : bound ≤ e := by
  simp only [align] at h
  split at h
  · cases h
    exact h₁
  · split at h
    · cases h
      exact h₁
    · cases h
      exact h₂

theorem lt_finite {n₁ n₂ : Bool} {m₁ m₂ : Nat} {e₁ e₂ : Int} {normal₁ : IsNormal m₁ e₁}
    {normal₂ : IsNormal m₂ e₂} {a b : Nat} {e : Int} (h : align m₁ e₁ m₂ e₂ = (a, b, e)) :
    (finite n₁ m₁ e₁ normal₁).lt (finite n₂ m₂ e₂ normal₂) = true ↔ signed n₁ a < signed n₂ b := by
  have order : (finite n₁ m₁ e₁ normal₁).order? (finite n₂ m₂ e₂ normal₂) =
      some (compare (signed n₁ a) (signed n₂ b)) := by
    simp only [order?, h]
  rw [lt, order, beq_iff_eq, Option.some.injEq, Std.compare_eq_lt]

theorem finite_sub {n₁ n₂ : Bool} {m₁ m₂ : Nat} {e₁ e₂ : Int} (normal₁ : IsNormal m₁ e₁)
    (normal₂ : IsNormal m₂ e₂) {a b : Nat} {e : Int} (h : align m₁ e₁ m₂ e₂ = (a, b, e)) :
    finite n₁ m₁ e₁ normal₁ - finite n₂ m₂ e₂ normal₂ =
      if signed n₁ a = signed n₂ b then signedZero (n₁ && !n₂)
      else roundDyadic (signed n₁ a < signed n₂ b) (signed n₁ a - signed n₂ b).natAbs e false := by
  show finite n₁ m₁ e₁ normal₁ + finite (!n₂) m₂ e₂ normal₂ = _
  have total : signed n₁ a + signed (!n₂) b = signed n₁ a - signed n₂ b := by
    rw [signed_not, Int.sub_eq_add_neg]
  have sign : signed n₁ a - signed n₂ b < 0 ↔ signed n₁ a < signed n₂ b := by omega
  simp only [finite_add normal₁ normal₂ h, total, sign, Int.sub_eq_zero]

theorem le_zero_finite {m : Nat} {e : Int} (normal : IsNormal m e) :
    (finite true m e normal).le 0 = true := by
  have aligned : ∃ a e', align m e 0 0 = (a, 0, e') := by
    simp only [align]
    split
    · exact ⟨_, _, rfl⟩
    · split
      · exact ⟨_, _, by rw [Nat.zero_shiftLeft]⟩
      · exact ⟨_, _, rfl⟩
  obtain ⟨a, e', h⟩ := aligned
  have below : ¬(0 < -(a : Int)) := by omega
  have order : (finite true m e normal).order? 0 = some (compare (-(a : Int)) 0) := by
    show (finite true m e normal).order? (signedZero false) = _
    simp only [order?, signedZero, h, signed, if_true, Bool.false_eq_true, if_false,
      Int.natCast_zero]
  rw [le, order]
  cases sign : compare (-(a : Int)) 0 with
  | lt | eq => rfl
  | gt => exact absurd (Std.compare_eq_gt.mp sign) below

theorem le_zero_ofParts (m : Nat) (e : Int) : (ofParts true m e).le 0 = true := by
  simp only [ofParts]
  split
  · exact le_zero_finite _
  · decide

theorem le_zero_roundDyadic (m : Nat) (e : Int) (inexact : Bool) :
    (roundDyadic true m e inexact).le 0 = true := by
  simp only [roundDyadic]
  split
  · exact le_zero_ofParts m e
  · exact le_zero_ofParts _ _

/-- Taking a larger number away leaves nothing. -/
theorem le_zero_sub_of_lt {x y : Number} (h : x.lt y = true) : (x - y).le 0 = true := by
  cases x with
  | nan => cases h
  | infinity n₁ =>
      cases y with
      | nan => cases n₁ <;> cases h
      | infinity n₂ => cases n₁ <;> cases n₂ <;> first | rfl | cases h
      | finite n₂ m₂ e₂ normal₂ =>
          cases n₁ with
          | false => cases h
          | true => rfl
  | finite n₁ m₁ e₁ normal₁ =>
      cases y with
      | nan => cases h
      | infinity n₂ =>
          cases n₂ with
          | false => rfl
          | true => cases h
      | finite n₂ m₂ e₂ normal₂ =>
          obtain ⟨a, b, e, aligned⟩ : ∃ a b e, align m₁ e₁ m₂ e₂ = (a, b, e) := ⟨_, _, _, rfl⟩
          have less := (lt_finite aligned).mp h
          rw [finite_sub normal₁ normal₂ aligned, if_neg (by omega), decide_eq_true less]
          exact le_zero_roundDyadic _ _ _

/-- What leaves something when it is taken away is smaller. -/
theorem lt_of_lt_zero_sub {x y : Number} (h : Number.lt 0 (x - y) = true) : y.lt x = true := by
  cases x with
  | nan => cases h
  | infinity n₁ =>
      cases y with
      | nan => cases n₁ <;> cases h
      | infinity n₂ => cases n₁ <;> cases n₂ <;> first | rfl | cases h
      | finite n₂ m₂ e₂ normal₂ =>
          cases n₁ with
          | false => rfl
          | true => cases h
  | finite n₁ m₁ e₁ normal₁ =>
      cases y with
      | nan => cases h
      | infinity n₂ =>
          cases n₂ with
          | false => cases h
          | true => rfl
      | finite n₂ m₂ e₂ normal₂ =>
          obtain ⟨a, b, e, aligned⟩ : ∃ a b e, align m₁ e₁ m₂ e₂ = (a, b, e) := ⟨_, _, _, rfl⟩
          have lower := le_of_align aligned (IsNormal.le_exponent normal₁)
            (IsNormal.le_exponent normal₂)
          rw [finite_sub normal₁ normal₂ aligned] at h
          split at h
          · exact absurd h (by cases n₁ <;> cases n₂ <;> decide)
          · rename_i differ
            rw [lt_zero_roundDyadic (by omega) lower, decide_eq_false_iff_not] at h
            rw [lt_finite (align_swap aligned)]
            omega

/-- What is above zero is not made so by a maximum with zero. -/
theorem lt_zero_of_lt_zero_max {x : Number} (h : Number.lt 0 (x.max 0) = true) :
    Number.lt 0 x = true := by
  have chosen : x.max 0 = x ∨ x.max 0 = 0 := by
    cases x with
    | nan => exact .inr rfl
    | infinity n => cases n <;> simp [max, show (0 : Number) = signedZero false from rfl, signedZero]
    | finite n m e normal =>
        change (if (finite n m e normal).lt 0 then 0 else finite n m e normal) = _ ∨
          (if (finite n m e normal).lt 0 then 0 else finite n m e normal) = _
        split
        · exact .inr rfl
        · exact .inl rfl
  obtain same | zero := chosen
  · rwa [same] at h
  · rw [zero] at h
    exact absurd h (by decide)

end CharacterRules.Number
