import CharacterRules.Proofs.Number.ReadBack
import CharacterRules.Proofs.Number.Step

/-!
Finite numbers. A value is rounded to a finite number if it is nearer to the largest of them than to
`2 ^ 1024`. The sum of a finite number and one with either sign is such a value.
-/

namespace CharacterRules.Number

/-- The values from here on are rounded to infinity: half a last place above the largest number. -/
def overflowPoint : ℚ := dyadic (2 ^ 54 - 1) 970

theorem overflowPoint_lt : overflowPoint < 2 ^ (1024 : Int) := by
  have power : (2 : ℚ) ^ (1024 : Int) = dyadic (2 ^ 54) 970 := two_zpow_add_eq_dyadic 970 54
  rw [overflowPoint, power, dyadic_lt_dyadic]
  decide

theorem isFinite_ofParts (negative : Bool) {m : Nat} {e : Int} (bound : m ≤ 2 ^ 53) (fine : -1074 ≤ e)
    (below : dyadic m e < 2 ^ (1024 : Int)) : (ofParts negative m e).isFinite = true := by
  obtain ⟨value, small, full, odd⟩ := settle_spec bound e
  obtain ⟨m', e', settled⟩ : ∃ m' e', settle m e = (m', e') := ⟨_, _, rfl⟩
  rw [settled] at value small full odd
  dsimp only at value small full odd
  have normal : IsNormal m' e' := by
    refine ⟨small, ?_⟩
    have most : e' ≤ 971 := by
      by_contra large
      obtain ⟨k, rfl⟩ : ∃ k : Nat, e' = 972 + k := ⟨(e' - 972).toNat, by omega⟩
      have mantissa : 2 ^ 52 ≤ m' * 2 ^ k :=
        Nat.le_trans (full (by omega)) (Nat.le_mul_of_pos_right _ (Nat.two_pow_pos k))
      have power : (2 : ℚ) ^ (1024 : Int) = dyadic (2 ^ 52) 972 := two_zpow_add_eq_dyadic 972 52
      rw [← value, ← dyadic_mul_two_pow, power, dyadic_lt_dyadic] at below
      omega
    have least : e' < 0 → -1074 ≤ e' := by
      intro fraction
      by_contra tiny
      obtain ⟨k, rfl⟩ : ∃ k : Nat, e = e' + (k + 1 : Nat) := ⟨(e - e').toNat - 1, by omega⟩
      have even : m' = m * 2 ^ (k + 1) := by
        rw [← dyadic_inj (e := e'), dyadic_mul_two_pow]
        exact value
      have parity := odd fraction
      rw [even, Nat.pow_succ, ← Nat.mul_assoc, Nat.mul_mod_left] at parity
      cases parity
    omega
  simp only [ofParts, settled, dif_pos normal, isFinite]

/-- What is nearest to a value below the overflow point is below `2 ^ 1024`. -/
theorem IsNearest.lt_of_lt {v : ℚ} {m : Nat} {e : Int} (near : IsNearest v m e)
    (below : v < overflowPoint) (bound : m ≤ 2 ^ 53) (last : e ≤ 971) :
    dyadic m e < 2 ^ (1024 : Int) := by
  have power : (2 : ℚ) ^ (1024 : Int) = dyadic (2 ^ 53) 971 := two_zpow_add_eq_dyadic 971 53
  rw [power]
  by_cases lower : e = 971
  · subst lower
    refine dyadic_lt_dyadic.mpr (Nat.lt_of_le_of_ne bound ?_)
    rintro rfl
    have distance : |v - dyadic (2 ^ 53) 971| ≤ 2 ^ (971 : Int) / 2 := near.elim le_of_lt fun h => h.1.le
    have half : (2 : ℚ) ^ (971 : Int) / 2 = 2 ^ (970 : Int) := by
      rw [show (971 : Int) = 970 + 1 from rfl, zpow_add_one₀ two_ne_zero, mul_div_cancel_right₀ _ two_ne_zero]
    have top : dyadic (2 ^ 53) 971 = overflowPoint + 2 ^ (970 : Int) := by
      rw [overflowPoint, ← dyadic_succ]
      exact (dyadic_mul_two_pow (2 ^ 53) 1 970).symm
    rw [half, top, abs_le] at distance
    linarith [distance.1]
  · obtain ⟨k, hk⟩ : ∃ k : Nat, 971 = e + (k + 1 : Nat) := ⟨(971 - e).toNat - 1, by omega⟩
    rw [hk, ← dyadic_mul_two_pow, dyadic_lt_dyadic]
    have doubled : 2 ^ 53 * 2 ≤ 2 ^ 53 * 2 ^ (k + 1) :=
      Nat.mul_le_mul_left _ (by rw [Nat.pow_succ]; have := Nat.two_pow_pos k; omega)
    omega

theorem isFinite_roundDyadic (negative : Bool) {v : ℚ} {n : Nat} {e : Int} {inexact : Bool}
    (cut : IsCut v n e inexact) (fine : -1074 ≤ e) (below : v < overflowPoint) :
    (roundDyadic negative n e inexact).isFinite = true := by
  simp only [roundDyadic]
  split
  · rename_i coarse
    have small : n ≤ 2 ^ 53 := by
      have power := Nat.pow_le_pow_right (n := 2) (by decide) (show n.log2 + 1 ≤ 53 by omega)
      exact Nat.le_of_lt (Nat.lt_of_lt_of_le Nat.lt_log2_self power)
    exact isFinite_ofParts negative small fine
      (cut.lower.trans_lt (below.trans overflowPoint_lt))
  · rename_i fractional
    have nonzero : n ≠ 0 := by
      rintro rfl
      rw [Nat.log2_zero] at fractional
      omega
    obtain ⟨t, place⟩ : ∃ t, t = Max.max (e + (n.log2 : Int) - 52) (-1074) := ⟨_, rfl⟩
    rw [← place] at fractional ⊢
    obtain ⟨k, rfl⟩ : ∃ k : Nat, t = e + (k + 1 : Nat) := ⟨(t - e).toNat - 1, by omega⟩
    have shift : (e + ((k + 1 : Nat) : Int) - e).toNat = k + 1 := by omega
    have small : roundedQuotient n (k + 1) inexact ≤ 2 ^ 53 := roundedQuotient_le (by omega) inexact
    -- with a coarser last place the leading bit alone would pass the overflow point
    have last : e + (k + 1 : Nat) ≤ 971 := by
      have leading : (2 : ℚ) ^ (e + n.log2) ≤ v := by
        rw [two_zpow_add_eq_dyadic]
        exact (dyadic_le_dyadic.mpr (Nat.log2_self_le nonzero)).trans cut.lower
      have bits := (zpow_lt_zpow_iff_right₀ one_lt_two).mp
        (leading.trans_lt (below.trans overflowPoint_lt))
      omega
    rw [shift]
    exact isFinite_ofParts negative small (by omega) ((cut.isNearest k).lt_of_lt below small last)

theorem dyadic_align {m₁ m₂ a b : Nat} {e₁ e₂ e : Int} (h : align m₁ e₁ m₂ e₂ = (a, b, e)) :
    dyadic a e = dyadic m₁ e₁ ∧ dyadic b e = dyadic m₂ e₂ := by
  have shifted : ∀ {m : Nat} {low high : Int}, low < high →
      dyadic (m <<< (high - low).toNat) low = dyadic m high := by
    intro m low high order
    obtain ⟨k, rfl⟩ : ∃ k : Nat, high = low + k := ⟨(high - low).toNat, by omega⟩
    have shift : (low + (k : Int) - low).toNat = k := by omega
    rw [shift, Nat.shiftLeft_eq, dyadic_mul_two_pow]
  simp only [align] at h
  split at h
  · rename_i same
    cases h
    exact ⟨rfl, same ▸ rfl⟩
  · rename_i differ
    split at h
    · rename_i order
      cases h
      exact ⟨rfl, shifted order⟩
    · rename_i order
      cases h
      exact ⟨shifted (by omega), rfl⟩

theorem IsNormal.dyadic_le {m : Nat} {e : Int} (h : IsNormal m e) :
    dyadic m e ≤ dyadic (2 ^ 53 - 1) 971 := by
  have small := h.1
  have exponent : e ≤ 971 := by
    obtain ⟨-, zero | large | fraction⟩ := h <;> omega
  calc dyadic m e ≤ dyadic (2 ^ 53 - 1) e := dyadic_le_dyadic.mpr (by omega)
    _ ≤ dyadic (2 ^ 53 - 1) 971 :=
      mul_le_mul_of_nonneg_left (zpow_le_zpow_right₀ one_le_two exponent) (Nat.cast_nonneg _)

theorem largest_add_one_lt : dyadic (2 ^ 53 - 1) 971 + 1 < overflowPoint := by
  have one : (1 : ℚ) < 2 ^ (970 : Int) := one_lt_zpow₀ one_lt_two (by decide)
  calc dyadic (2 ^ 53 - 1) 971 + 1 = dyadic (2 ^ 54 - 2) 970 + 1 := by
        rw [show dyadic (2 ^ 53 - 1) 971 = dyadic (2 ^ 54 - 2) 970 from
          (dyadic_mul_two_pow (2 ^ 53 - 1) 1 970).symm]
    _ < dyadic (2 ^ 54 - 2) 970 + 2 ^ (970 : Int) := add_lt_add_right one _
    _ = dyadic (2 ^ 54 - 2 + 1) 970 := (dyadic_succ _ _).symm
    _ = overflowPoint := congrArg (dyadic · 970) (by decide : 2 ^ 54 - 2 + 1 = 2 ^ 54 - 1)

/-- One with either sign takes no finite number out of the range. -/
theorem isFinite_add_unit {x : Number} (h : x.isFinite = true) (negative : Bool) :
    (x + finite negative 1 0 (by decide)).isFinite = true := by
  cases x with
  | nan | infinity n => cases h
  | finite n m e normal =>
      obtain ⟨a, b, k, aligned⟩ : ∃ a b k, align m e 1 0 = (a, b, k) := ⟨_, _, _, rfl⟩
      obtain ⟨mantissa, unit⟩ := dyadic_align aligned
      rw [finite_add normal _ aligned]
      split
      · rfl
      · refine isFinite_roundDyadic _ (isCut_dyadic _ _) (of_align_one normal aligned).2 ?_
        have total : (signed n a + signed negative b).natAbs ≤ a + b := by
          refine Nat.le_trans (Int.natAbs_add_le _ _) ?_
          rw [natAbs_signed, natAbs_signed]
        calc dyadic (signed n a + signed negative b).natAbs k ≤ dyadic (a + b) k :=
              dyadic_le_dyadic.mpr total
          _ = dyadic m e + 1 := by
              have one : dyadic 1 0 = 1 := by rw [dyadic, Nat.cast_one, zpow_zero, one_mul]
              rw [← mantissa, ← one, ← unit, dyadic, Nat.cast_add, add_mul, dyadic, dyadic]
          _ ≤ dyadic (2 ^ 53 - 1) 971 + 1 := add_le_add_left (IsNormal.dyadic_le normal) 1
          _ < overflowPoint := largest_add_one_lt

theorem isFinite_add_one {x : Number} (h : x.isFinite = true) : (x + 1).isFinite = true :=
  isFinite_add_unit h false

theorem isFinite_sub_one {x : Number} (h : x.isFinite = true) : (x - 1).isFinite = true :=
  isFinite_add_unit h true

end CharacterRules.Number
