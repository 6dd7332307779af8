import CharacterRules.Proofs.Formula.Literal
import CharacterRules.Proofs.Number.Difference

/-!
Numbers brought into a range. Unless it is not-a-number, a number is brought between two bounds as well
by taking the smaller of it and the upper bound, and then the larger of that and the lower bound.
-/

namespace CharacterRules.Number

theorem exists_ofNat_eq {a : Nat} (bound : a < 2 ^ 53) : ∃ normal : IsNormal a 0,
    ofNat a = finite false a 0 normal :=
  ⟨⟨bound, .inl rfl⟩, dif_pos bound⟩

theorem toInt?_ofNat {n : Nat} (bound : n < 2 ^ 53) : (ofNat n).toInt? = some n := by
  obtain ⟨normal, same⟩ := exists_ofNat_eq bound
  rw [same]
  simp [toInt?, signed]

/-- Aligned with an integer, a number has a mantissa that does not depend on the integer. -/
theorem exists_align_natCast (m : Nat) (e : Int) : ∃ p q k, ∀ a, align m e a 0 = (p, a * q, k) := by
  rcases Int.lt_trichotomy e 0 with below | rfl | above
  · refine ⟨m, 2 ^ (-e).toNat, e, fun a => ?_⟩
    rw [align, if_neg (by omega), if_pos below, Nat.shiftLeft_eq, Int.zero_sub]
  · exact ⟨m, 1, 0, fun a => by rw [align, if_pos rfl, Nat.mul_one]⟩
  · refine ⟨m <<< e.toNat, 1, 0, fun a => ?_⟩
    rw [align, if_neg (by omega), if_neg (by omega), Nat.mul_one, Int.sub_zero]

/-- A number below a bound is not above a larger one. -/
theorem not_lt_of_lt {a b : Nat} (order : a ≤ b) (bound : b < 2 ^ 53) {x : Number}
    (below : x.lt (ofNat a) = true) : (ofNat b).lt x = false := by
  obtain ⟨normal₁, low⟩ := exists_ofNat_eq (a := a) (by omega)
  obtain ⟨normal₂, high⟩ := exists_ofNat_eq bound
  rw [low] at below
  rw [high]
  cases x with
  | nan => cases below
  | infinity n =>
      cases n with
      | false => cases below
      | true => rfl
  | finite n m e normal =>
      obtain ⟨p, q, k, aligned⟩ := exists_align_natCast m e
      rw [lt_finite (aligned a)] at below
      rw [Bool.eq_false_iff, ne_eq, lt_finite (align_swap (aligned b))]
      have scaled : a * q ≤ b * q := Nat.mul_le_mul_right q order
      simp only [signed, Bool.false_eq_true, if_false] at below ⊢
      omega

theorem max_eq_ite {x y : Number} (hx : x ≠ .nan) (hy : y ≠ .nan) :
    x.max y = if x.lt y then y else x := by
  cases x with
  | nan => exact absurd rfl hx
  | infinity _ | finite _ _ _ _ =>
      cases y with
      | nan => exact absurd rfl hy
      | infinity _ | finite _ _ _ _ => rfl

theorem min_eq_ite {x y : Number} (hx : x ≠ .nan) (hy : y ≠ .nan) :
    x.min y = if y.lt x then y else x := by
  cases x with
  | nan => exact absurd rfl hx
  | infinity _ | finite _ _ _ _ =>
      cases y with
      | nan => exact absurd rfl hy
      | infinity _ | finite _ _ _ _ => rfl

/-- A range is a minimum and then a maximum. -/
theorem clamp_eq_max_min {low high : Nat} (order : low ≤ high) (bound : high < 2 ^ 53) {x : Number}
    (number : x ≠ .nan) :
    clamp (ofNat low) (ofNat high) x = (x.min (ofNat high)).max (ofNat low) := by
  have told : ∀ {a : Nat}, a < 2 ^ 53 → ofNat a ≠ .nan := by
    intro a small
    obtain ⟨normal, same⟩ := exists_ofNat_eq small
    rw [same]
    exact nofun
  have upper := told bound
  have lower := told (a := low) (by omega)
  rw [clamp, min_eq_ite number upper]
  cases above : (ofNat high).lt x with
  | true =>
      have least : x.lt (ofNat low) = false := by
        refine Bool.eq_false_iff.mpr fun below => ?_
        rw [not_lt_of_lt order bound below] at above
        cases above
      have ordered : (ofNat high).lt (ofNat low) = false := by
        refine Bool.eq_false_iff.mpr fun below => ?_
        obtain ⟨normal₁, same₁⟩ := exists_ofNat_eq (a := low) (by omega)
        obtain ⟨normal₂, same₂⟩ := exists_ofNat_eq bound
        rw [same₁, same₂, lt_finite (if_pos rfl : align high 0 low 0 = (high, low, 0))] at below
        simp only [signed, Bool.false_eq_true, if_false] at below
        omega
      rw [if_pos rfl, max_eq_ite upper lower, least, ordered]
  | false =>
      exact (max_eq_ite number lower).symm

theorem roundDyadic_ne_nan (negative : Bool) (n : Nat) (e : Int) (inexact : Bool) :
    roundDyadic negative n e inexact ≠ .nan := by
  intro nan
  have signed := isNaN_of_hasSign (hasSign_roundDyadic negative n e inexact)
  rw [nan] at signed
  cases signed

theorem finite_add_ne_nan {n : Bool} {m : Nat} {e : Int} (normal : IsNormal m e) {y : Number}
    (number : y ≠ .nan) : finite n m e normal + y ≠ .nan := by
  cases y with
  | nan => exact absurd rfl number
  | infinity n' => exact nofun
  | finite n' m' e' normal' =>
      obtain ⟨a, b, k, aligned⟩ : ∃ a b k, align m e m' e' = (a, b, k) := ⟨_, _, _, rfl⟩
      rw [finite_add normal normal' aligned]
      split
      · exact nofun
      · exact roundDyadic_ne_nan _ _ _ _

theorem finite_mul_ne_nan {n n' : Bool} {m m' : Nat} {e e' : Int} (normal : IsNormal m e)
    (normal' : IsNormal m' e') : finite n m e normal * finite n' m' e' normal' ≠ .nan := by
  show (if m = 0 || m' = 0 then signedZero (n != n')
    else roundDyadic (n != n') (m * m') (e + e') false) ≠ .nan
  split
  · exact nofun
  · exact roundDyadic_ne_nan _ _ _ _

end CharacterRules.Number
