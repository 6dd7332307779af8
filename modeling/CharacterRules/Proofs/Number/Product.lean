import CharacterRules.Proofs.Number.ReadBack
import Mathlib.Data.List.Forall2

/-!
Products of integers, and integers in digits. Like a sum, the product of two integers is exact if it is a
number, and so is an integer that is read from its digits.
-/

namespace CharacterRules.Number

/-- An integer below `2 ^ 53` is a number. -/
theorem isExact_of_lt {z : Int} (small : z.natAbs < 2 ^ 53) : IsExact z := by
  refine ⟨ofInt z, ?_⟩
  rw [ofInt, dif_pos small]
  exact congrArg some (signed_natAbs z)

theorem signed_mul_signed (n₁ n₂ : Bool) (a b : Nat) :
    signed n₁ a * signed n₂ b = signed (n₁ != n₂) (a * b) := by
  cases n₁ <;> cases n₂ <;> simp [signed]

theorem toInt?_neg {x : Number} {a : Int} (h : x.toInt? = some a) : (-x).toInt? = some (-a) := by
  obtain ⟨n, m, k, normal, rfl, rfl⟩ := toInt?_eq_some.mp h
  refine toInt?_eq_some.mpr ⟨!n, m, k, normal, rfl, ?_⟩
  cases n <;> simp [signed]

/-- The number that is rounded from an integer is that integer if it is a number. -/
theorem toInt?_roundDyadic {negative : Bool} {n e : Nat} (nonzero : n ≠ 0)
    (exact : IsExact (signed negative (n * 2 ^ e))) :
    (roundDyadic negative n e false).toInt? = some (signed negative (n * 2 ^ e)) := by
  obtain ⟨c, hc⟩ := exact
  obtain ⟨sign, m, k, normal, rfl, same⟩ := toInt?_eq_some.mp hc
  have apart : n * 2 ^ e ≠ 0 := Nat.mul_ne_zero nonzero (Nat.two_pow_pos e).ne'
  obtain ⟨values, signs⟩ := signed_eq_signed_iff.mp same
  obtain rfl := signs.resolve_right apart
  rw [roundDyadic_eq_of_normal _ normal values nonzero]
  exact hc

/-- The product of two integers is exact if it is a number. -/
theorem toInt?_mul {x y : Number} {a b : Int} (hx : x.toInt? = some a) (hy : y.toInt? = some b)
    (exact : IsExact (a * b)) : (x * y).toInt? = some (a * b) := by
  obtain ⟨n₁, m₁, k₁, normal₁, rfl, rfl⟩ := toInt?_eq_some.mp hx
  obtain ⟨n₂, m₂, k₂, normal₂, rfl, rfl⟩ := toInt?_eq_some.mp hy
  have product : m₁ * 2 ^ k₁ * (m₂ * 2 ^ k₂) = m₁ * m₂ * 2 ^ (k₁ + k₂) := by
    rw [Nat.pow_add]
    exact Nat.mul_mul_mul_comm m₁ (2 ^ k₁) m₂ (2 ^ k₂)
  have value : finite n₁ m₁ k₁ normal₁ * finite n₂ m₂ k₂ normal₂ =
      if m₁ = 0 || m₂ = 0 then signedZero (n₁ != n₂)
      else roundDyadic (n₁ != n₂) (m₁ * m₂) (k₁ + k₂ : Nat) false := rfl
  rw [signed_mul_signed, product] at exact ⊢
  rw [value]
  split
  · rename_i zero
    have vanishes : m₁ * m₂ = 0 := by simpa using zero
    rw [vanishes, Nat.zero_mul]
    cases n₁ <;> cases n₂ <;> rfl
  · rename_i nonzero
    exact toInt?_roundDyadic (by simpa using nonzero) exact

/-- Integers that are joined one by one, each time exactly, leave an integer. -/
theorem toInt?_foldl {f : Number → Number → Number} {h : Int → Int → Int}
    (join : ∀ {x y a b}, x.toInt? = some a → y.toInt? = some b → IsExact (h a b) →
      (f x y).toInt? = some (h a b))
    {numbers : List Number} {values : List Int}
    (integers : List.Forall₂ (fun x a => x.toInt? = some a) numbers values) {x : Number} {a : Int}
    (start : x.toInt? = some a)
    (exact : ∀ before, before <+: values → IsExact (before.foldl h a)) :
    (numbers.foldl f x).toInt? = some (values.foldl h a) := by
  induction integers generalizing x a with
  | nil => exact start
  | @cons y b numbers values first _ ih =>
      have joined : (f x y).toInt? = some (h a b) :=
        join start first (exact [b] ⟨values, rfl⟩)
      refine ih joined fun before part => ?_
      exact exact (b :: before) ((List.prefix_cons_inj b).mpr part)

/-- An integer in digits is read as it is if it is a number. -/
theorem exists_ofText?_of_digits {digits : List Char} (numeral : IsNumeral digits [])
    (exact : IsExact (Nat.ofDigitChars 10 digits 0)) :
    ∃ x, ofText? (String.ofList digits) = some x ∧
      x.toInt? = some (Nat.ofDigitChars 10 digits 0 : Int) := by
  have text : numeralText digits [] = digits := List.append_nil digits
  have value : numeralDigits digits [] = Nat.ofDigitChars 10 digits 0 := by
    rw [numeralDigits, List.append_nil]
  have unsigned : signText false ++ String.ofList digits = String.ofList digits :=
    String.empty_append
  have read := ofText?_numeralText numeral false
  rw [text, value, unsigned] at read
  refine ⟨_, read, ?_⟩
  by_cases zero : Nat.ofDigitChars 10 digits 0 = 0
  · rw [zero]
    rfl
  · have rounded := @toInt?_roundDyadic false _ 0 zero (by simpa [signed] using exact)
    have whole := ofDecimal_integer zero (digits.length + ([] : List Char).length) false
    exact (congrArg toInt? whole).trans (by simpa [signed] using rounded)

end CharacterRules.Number
