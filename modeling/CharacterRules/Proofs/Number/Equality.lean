import CharacterRules.Number.Text

/-!
Numeric equality. As each value has one normal form, numbers that are equal are the same, save that
the two zeros are equal as well; so neither an order nor a text tells equal numbers apart.
-/

namespace CharacterRules.Number

theorem signed_eq_signed_iff {n₁ n₂ : Bool} {a b : Nat} :
    signed n₁ a = signed n₂ b ↔ a = b ∧ (n₁ = n₂ ∨ a = 0) := by
  cases n₁ <;> cases n₂ <;> simp only [signed, if_true, Bool.false_eq_true, if_false, true_or,
    and_true, reduceCtorEq, false_or] <;> omega

/-- Normal forms with different exponents stand for different values. -/
theorem eq_zero_of_eq_shiftLeft {m₁ m₂ : Nat} {e₁ e₂ : Int} (normal₁ : IsNormal m₁ e₁)
    (normal₂ : IsNormal m₂ e₂) (below : e₁ < e₂) (h : m₁ = m₂ <<< (e₂ - e₁).toNat) :
    m₁ = 0 ∧ m₂ = 0 := by
  obtain ⟨k, hk⟩ : ∃ k, (e₂ - e₁).toNat = k + 1 := ⟨(e₂ - e₁).toNat - 1, by omega⟩
  have double : m₁ = 2 * (m₂ * 2 ^ k) := by
    rw [h, hk, Nat.shiftLeft_eq, Nat.pow_succ]
    ac_rfl
  have grows : m₂ ≤ m₂ * 2 ^ k := Nat.le_mul_of_pos_right m₂ (Nat.two_pow_pos k)
  obtain ⟨small, forms⟩ := normal₁
  obtain ⟨-, rfl | ⟨-, -, large⟩ | ⟨negative, -, -⟩⟩ := normal₂
  · omega
  · omega
  · omega

/-- Two numbers are equal if they are the same and not not-a-number, or both zero. -/
theorem beq_iff {x y : Number} :
    (x == y) = true ↔ (x = y ∧ x.isNaN = false) ∨ (x.isZero = true ∧ y.isZero = true) := by
  have equal : (x == y) = true ↔ x.order? y = some .eq := by
    show (x.order? y == some .eq) = true ↔ _
    rw [beq_iff_eq]
  rw [equal]
  cases x with
  | nan => simp [order?, isNaN, isZero]
  | infinity n₁ =>
      cases y with
      | nan => simp [order?, isZero]
      | infinity n₂ => cases n₁ <;> cases n₂ <;> simp [order?, isNaN, isZero]
      | finite n₂ m₂ e₂ normal₂ => cases n₁ <;> simp [order?, isZero]
  | finite n₁ m₁ e₁ normal₁ =>
      cases y with
      | nan => simp [order?, isZero]
      | infinity n₂ => cases n₂ <;> simp [order?, isZero]
      | finite n₂ m₂ e₂ normal₂ =>
          simp only [order?, Option.some.injEq, Std.LawfulEqCmp.compare_eq_iff_eq,
            signed_eq_signed_iff, finite.injEq, isNaN, isZero, beq_iff_eq, and_true, align]
          split
          · rename_i same
            dsimp only
            constructor
            · rintro ⟨rfl, rfl | rfl⟩
              · exact .inl ⟨rfl, rfl, same⟩
              · exact .inr ⟨rfl, rfl⟩
            · rintro (⟨rfl, rfl, -⟩ | ⟨rfl, rfl⟩)
              · exact ⟨rfl, .inl rfl⟩
              · exact ⟨rfl, .inr rfl⟩
          -- with different exponents one mantissa is shifted out of normal form unless it is zero
          · rename_i differ
            split
            · rename_i below
              have apart := eq_zero_of_eq_shiftLeft normal₁ normal₂ below
              refine ⟨fun h => .inr (apart h.1), fun h => ?_⟩
              obtain ⟨rfl, rfl⟩ := h.resolve_left fun same => differ same.2.2
              simp
            · rename_i above
              have apart := eq_zero_of_eq_shiftLeft normal₂ normal₁ (by omega)
              refine ⟨fun h => .inr (apart h.1.symm).symm, fun h => ?_⟩
              obtain ⟨rfl, rfl⟩ := h.resolve_left fun same => differ same.2.2
              simp

theorem beq_self_iff {x : Number} : (x == x) = true ↔ x.isNaN = false := by
  rw [beq_iff]
  cases x <;> simp [isNaN, isZero]

theorem beq_symm {x y : Number} (h : (x == y) = true) : (y == x) = true := by
  rw [beq_iff] at h ⊢
  rcases h with ⟨rfl, some⟩ | ⟨hx, hy⟩
  · exact .inl ⟨rfl, some⟩
  · exact .inr ⟨hy, hx⟩

theorem beq_trans {x y z : Number} (h : (x == y) = true) (h' : (y == z) = true) :
    (x == z) = true := by
  rw [beq_iff] at h h' ⊢
  rcases h with ⟨rfl, some⟩ | ⟨hx, hy⟩
  · exact h'
  · rcases h' with ⟨rfl, -⟩ | ⟨-, hz⟩
    · exact .inr ⟨hx, hy⟩
    · exact .inr ⟨hx, hz⟩

theorem eq_signedZero_of_isZero {x : Number} (h : x.isZero = true) : ∃ n, x = signedZero n := by
  cases x with
  | nan => simp [isZero] at h
  | infinity n => simp [isZero] at h
  | finite n m e normal =>
      obtain rfl : m = 0 := by simpa [isZero] using h
      obtain rfl : e = 0 := by
        obtain ⟨-, zero | ⟨-, -, large⟩ | ⟨-, -, odd⟩⟩ := normal
        · exact zero
        · omega
        · omega
      exact ⟨n, rfl⟩

theorem order?_signedZero (x : Number) (n₁ n₂ : Bool) :
    x.order? (signedZero n₁) = x.order? (signedZero n₂) := by
  have zero : ∀ n, signed n 0 = 0 := by decide
  cases x with
  | nan => rfl
  | infinity n => rfl
  | finite n m e normal =>
      simp only [signedZero, order?, align]
      split
      · rw [zero, zero]
      · split
        · rw [Nat.zero_shiftLeft, zero, zero]
        · rw [zero, zero]

/-- No number compares differently with equal numbers. -/
theorem order?_congr {y z : Number} (h : (y == z) = true) (x : Number) :
    x.order? y = x.order? z := by
  rcases beq_iff.mp h with ⟨rfl, -⟩ | ⟨hy, hz⟩
  · rfl
  · obtain ⟨n₁, rfl⟩ := eq_signedZero_of_isZero hy
    obtain ⟨n₂, rfl⟩ := eq_signedZero_of_isZero hz
    exact x.order?_signedZero n₁ n₂

theorem display_congr {y z : Number} (h : (y == z) = true) : y.display = z.display := by
  rcases beq_iff.mp h with ⟨rfl, -⟩ | ⟨hy, hz⟩
  · rfl
  · obtain ⟨n₁, rfl⟩ := eq_signedZero_of_isZero hy
    obtain ⟨n₂, rfl⟩ := eq_signedZero_of_isZero hz
    have zero : ∀ n, (signedZero n).display = "0" := by decide
    rw [zero, zero]

end CharacterRules.Number
