import CharacterRules.Proofs.Formula.Literal
import CharacterRules.Proofs.Number.Difference
import CharacterRules.Proofs.Number.Product

/-!
The numbers next to a bound. One more is above a number and one less is below it, unless it is rounded
back to the number.
-/

namespace CharacterRules.Number

theorem order?_swap (x y : Number) : y.order? x = (x.order? y).map Ordering.swap := by
  cases x with
  | nan => cases y <;> rfl
  | infinity n =>
      cases y with
      | nan => rfl
      | infinity n' => cases n <;> cases n' <;> rfl
      | finite n' m e normal => cases n <;> rfl
  | finite n m e normal =>
      cases y with
      | nan => rfl
      | infinity n' => cases n' <;> rfl
      | finite n' m' e' normal' =>
          obtain ⟨a, b, k, aligned⟩ : ∃ a b k, align m e m' e' = (a, b, k) := ⟨_, _, _, rfl⟩
          simp only [order?, aligned, align_swap aligned, Option.map_some]
          exact congrArg some Std.OrientedCmp.eq_swap

/-- Integers are in the order of the numbers that stand for them. -/
theorem lt_iff_of_toInt? {x y : Number} {a b : Int} (hx : x.toInt? = some a)
    (hy : y.toInt? = some b) : x.lt y = true ↔ a < b := by
  obtain ⟨n, m, k, normal, rfl, rfl⟩ := toInt?_eq_some.mp hx
  obtain ⟨n', m', k', normal', rfl, rfl⟩ := toInt?_eq_some.mp hy
  obtain ⟨p, q, e, aligned, first, second⟩ := exists_align_eq m k m' k'
  rw [lt_finite aligned, first, second, signed_mul, signed_mul]
  exact (Int.mul_lt_mul_right (by positivity)).symm

theorem lt_add_one_of_toInt? {x : Number} {z : Int} (integer : x.toInt? = some z)
    (exact : IsExact (z + 1)) : x.lt (x + 1) = true :=
  (lt_iff_of_toInt? integer (toInt?_add integer rfl exact).1).mpr (Int.lt_succ z)

theorem sub_one_lt_of_toInt? {x : Number} {z : Int} (integer : x.toInt? = some z)
    (exact : IsExact (z - 1)) : (x - 1).lt x = true :=
  (lt_iff_of_toInt? (toInt?_add integer (toInt?_neg rfl) exact).1 integer).mpr (by omega)

theorem order?_eq_none_iff {x y : Number} : x.order? y = none ↔ x = .nan ∨ y = .nan := by
  cases x <;> cases y <;> simp [order?]

theorem sub_one_ne_nan {n : Number} (number : n ≠ .nan) : n - 1 ≠ .nan := by
  cases n with
  | nan => exact absurd rfl number
  | infinity negative => cases negative <;> decide
  | finite negative m e normal =>
      obtain ⟨a, b, k, aligned⟩ : ∃ a b k, align m e 1 0 = (a, b, k) := ⟨_, _, _, rfl⟩
      rw [show (1 : Number) = finite false 1 0 (by decide) from rfl, finite_sub normal _ aligned]
      split
      · exact nofun
      · intro nan
        have signed := isNaN_of_hasSign (hasSign_roundDyadic
          (signed negative a < signed false b) (signed negative a - signed false b).natAbs k false)
        rw [nan] at signed
        cases signed

end CharacterRules.Number
