import CharacterRules.Proofs.Number.Rounding
import CharacterRules.Proofs.Number.Step
import Mathlib.Algebra.BigOperators.Group.List.Basic
import Mathlib.Algebra.Order.Ring.Int

/-!
Sums of integers. A number without fraction is an integer, and an integer that is a number at all is
one in just one way, save for the two zeros. The sum of two integers is exact if it is a number; so a
sum in which this holds at every step does not depend on the order of its summands.
-/

namespace CharacterRules.Number

theorem roundDyadic_eq_of_normal (negative : Bool) {n e m k : Nat} (normal : IsNormal m k)
    (same : n * 2 ^ e = m * 2 ^ k) (nonzero : n ≠ 0) :
    roundDyadic negative n e false = finite negative m k normal := by
  have value : dyadic n e = dyadic m k := by
    rw [dyadic, dyadic, zpow_natCast, zpow_natCast]
    exact_mod_cast same
  have nonzero' : m ≠ 0 := by
    rintro rfl
    have positive := Nat.mul_pos (Nat.pos_of_ne_zero nonzero) (Nat.two_pow_pos e)
    omega
  exact roundDyadic_eq_of_dyadic_eq negative normal value nonzero'

theorem toInt?_eq_some {x : Number} {z : Int} : x.toInt? = some z ↔
    ∃ n m, ∃ k : Nat, ∃ normal : IsNormal m k, x = finite n m k normal ∧ z = signed n (m * 2 ^ k) := by
  cases x with
  | nan => simp [toInt?]
  | infinity n => simp [toInt?]
  | finite n m e normal =>
      cases e with
      | ofNat k =>
          simp only [toInt?, Option.some.injEq, Nat.shiftLeft_eq]
          constructor
          · rintro rfl
            exact ⟨n, m, k, normal, rfl, rfl⟩
          · rintro ⟨n', m', k', normal', same, rfl⟩
            cases same
            rfl
      | negSucc k =>
          simp only [toInt?, reduceCtorEq, false_iff]
          rintro ⟨n', m', k', normal', same, -⟩
          cases same

/-- Whether an integer is a number, so that no rounding is needed to give it. -/
def IsExact (z : Int) : Prop := ∃ x : Number, x.toInt? = some z

theorem signed_mul (n : Bool) (m p : Nat) : signed n (m * p) = signed n m * (p : Int) := by
  cases n with
  | false => simp [signed]
  | true => simp [signed]

theorem eq_signedZero_iff {n sign : Bool} {m k : Nat} {normal : IsNormal m k} :
    finite n m k normal = signedZero sign ↔ n = sign ∧ m = 0 := by
  constructor
  · intro same
    cases same
    exact ⟨rfl, rfl⟩
  · rintro ⟨rfl, rfl⟩
    have zero : (finite n 0 k normal).isZero = true := rfl
    obtain ⟨sign, same⟩ := eq_signedZero_of_isZero zero
    cases same
    rfl

/-- An integer is a number in one way, if the two zeros are told apart. -/
theorem eq_of_toInt? {x y : Number} {z : Int} (hx : x.toInt? = some z) (hy : y.toInt? = some z)
    (zero : x = signedZero true ↔ y = signedZero true) : x = y := by
  obtain ⟨n₁, m₁, k₁, normal₁, rfl, rfl⟩ := toInt?_eq_some.mp hx
  obtain ⟨n₂, m₂, k₂, normal₂, rfl, same⟩ := toInt?_eq_some.mp hy
  obtain ⟨integers, signs⟩ := signed_eq_signed_iff.mp same
  by_cases nonzero : m₁ * 2 ^ k₁ = 0
  · obtain rfl : m₁ = 0 := by simpa using nonzero
    obtain rfl : m₂ = 0 := by simpa using integers.symm.trans nonzero
    have signs : n₁ = n₂ := by
      rw [eq_signedZero_iff, eq_signedZero_iff] at zero
      cases n₁ <;> cases n₂ <;> simp_all
    rw [eq_signedZero_iff.mpr ⟨signs, rfl⟩, eq_signedZero_iff.mpr ⟨rfl, rfl⟩]
  · obtain rfl := signs.resolve_right nonzero
    rw [← roundDyadic_eq_of_normal n₁ normal₁ (n := m₁ * 2 ^ k₁) (e := 0) (by simp) nonzero,
      ← roundDyadic_eq_of_normal n₁ normal₂ (n := m₁ * 2 ^ k₁) (e := 0) (by simp [integers]) nonzero]

theorem exists_align_eq (m₁ k₁ m₂ k₂ : Nat) : ∃ a b, ∃ e : Nat,
    align m₁ k₁ m₂ k₂ = (a, b, (e : Int)) ∧ m₁ * 2 ^ k₁ = a * 2 ^ e ∧ m₂ * 2 ^ k₂ = b * 2 ^ e := by
  have shifted : ∀ {m k e : Nat}, e ≤ k → m * 2 ^ k = m <<< ((k : Int) - (e : Int)).toNat * 2 ^ e := by
    intro m k e below
    have shift : ((k : Int) - (e : Int)).toNat = k - e := by omega
    rw [shift, Nat.shiftLeft_eq, Nat.mul_assoc, ← Nat.pow_add, Nat.sub_add_cancel below]
  rw [align]
  split
  · rename_i equal
    obtain rfl : k₁ = k₂ := by omega
    exact ⟨m₁, m₂, k₁, rfl, rfl, rfl⟩
  · split
    · exact ⟨_, _, k₁, rfl, rfl, shifted (by omega)⟩
    · exact ⟨_, _, k₂, rfl, shifted (by omega), rfl⟩

theorem signed_natAbs (z : Int) : signed (z < 0) z.natAbs = z := by
  rw [signed]
  split
  · rename_i negative
    have below := of_decide_eq_true negative
    omega
  · rename_i positive
    have above := of_decide_eq_false (Bool.eq_false_iff.mpr positive)
    omega

/-- The sum of two integers is exact if it is a number. It is minus zero only if both are. -/
theorem toInt?_add {x y : Number} {a b : Int} (hx : x.toInt? = some a) (hy : y.toInt? = some b)
    (exact : IsExact (a + b)) : (x + y).toInt? = some (a + b) ∧
      (x + y = signedZero true ↔ x = signedZero true ∧ y = signedZero true) := by
  obtain ⟨n₁, m₁, k₁, normal₁, rfl, rfl⟩ := toInt?_eq_some.mp hx
  obtain ⟨n₂, m₂, k₂, normal₂, rfl, rfl⟩ := toInt?_eq_some.mp hy
  obtain ⟨a, b, e, aligned, first, second⟩ := exists_align_eq m₁ k₁ m₂ k₂
  have total : signed n₁ (m₁ * 2 ^ k₁) + signed n₂ (m₂ * 2 ^ k₂) =
      (signed n₁ a + signed n₂ b) * (2 ^ e : Nat) := by
    rw [first, second, signed_mul, signed_mul, Int.add_mul]
  have vanish : ∀ {m k c : Nat}, m * 2 ^ k = c * 2 ^ e → (m = 0 ↔ c = 0) := by
    intro m k c same
    have power := Nat.two_pow_pos
    constructor <;> rintro rfl <;> simpa [eq_comm] using same
  rw [total] at exact ⊢
  rw [finite_add normal₁ normal₂ aligned, eq_signedZero_iff, eq_signedZero_iff, vanish first,
    vanish second]
  generalize signs : signed n₁ a + signed n₂ b = sum at exact ⊢
  split
  -- a sum that cancels is plus zero, unless both summands have the minus sign and so are zero
  · rename_i zero
    have parts : n₁ = true → n₂ = true → a = 0 ∧ b = 0 := by
      rintro rfl rfl
      simp only [signed, if_true] at signs
      omega
    have sign : ∀ n, (signedZero n).toInt? = some 0 ∧ (signedZero n = signedZero true ↔ n = true) := by
      decide
    rw [zero, Int.zero_mul, (sign _).2, Bool.and_eq_true]
    exact ⟨(sign _).1, fun h => ⟨⟨h.1, (parts h.1 h.2).1⟩, h.2, (parts h.1 h.2).2⟩,
      fun h => ⟨h.1.1, h.2.1⟩⟩
  -- the exact sum is a number, so it is its own rounding
  · rename_i nonzero
    obtain ⟨c, hc⟩ := exact
    obtain ⟨n, m, k, normal, rfl, same⟩ := toInt?_eq_some.mp hc
    rw [← signed_natAbs sum, ← signed_mul, signed_eq_signed_iff] at same
    have apart : sum.natAbs * 2 ^ e ≠ 0 :=
      Nat.mul_ne_zero (by omega) (Nat.pos_iff_ne_zero.mp (Nat.two_pow_pos e))
    rw [roundDyadic_eq_of_normal _ normal same.1 (by omega), same.2.resolve_right apart,
      eq_signedZero_iff]
    refine ⟨hc, ?_, ?_⟩
    · rintro ⟨-, rfl⟩
      exact absurd (same.1.trans (Nat.zero_mul _)) apart
    · rintro ⟨⟨-, rfl⟩, -, rfl⟩
      cases n₁ <;> cases n₂ <;> exact absurd signs.symm nonzero

end CharacterRules.Number
