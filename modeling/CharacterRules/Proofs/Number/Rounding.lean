import CharacterRules.Number.Decimal
import Mathlib.Algebra.Order.Field.Power
import Mathlib.Algebra.Order.Field.Rat
import Mathlib.Tactic.FieldSimp
import Mathlib.Tactic.Linarith
import Mathlib.Tactic.Positivity
import Mathlib.Tactic.Ring

/-!
Rounding to the nearest number. A truncated value is rounded to the multiple of the last place that
is nearest to it, of two the even one; there is only one such multiple, so every number is what the
values nearest to it are rounded to.
-/

namespace CharacterRules.Number

/-- The exact value `m · 2 ^ e`. -/
def dyadic (m : Nat) (e : Int) : ℚ := m * (2 : ℚ) ^ e

theorem two_zpow_pos (e : Int) : (0 : ℚ) < 2 ^ e := zpow_pos two_pos e

theorem two_zpow_add_natCast (e : Int) (k : Nat) : (2 : ℚ) ^ (e + k) = 2 ^ e * ((2 ^ k : Nat) : ℚ) := by
  rw [zpow_add₀ two_ne_zero, zpow_natCast, Nat.cast_pow, Nat.cast_ofNat]

theorem dyadic_mul_two_pow (m k : Nat) (e : Int) : dyadic (m * 2 ^ k) e = dyadic m (e + k) := by
  rw [dyadic, dyadic, two_zpow_add_natCast, Nat.cast_mul]
  ring

theorem dyadic_le_dyadic {m n : Nat} {e : Int} : dyadic m e ≤ dyadic n e ↔ m ≤ n := by
  rw [dyadic, dyadic, mul_le_mul_iff_left₀ (two_zpow_pos e), Nat.cast_le]

theorem dyadic_lt_dyadic {m n : Nat} {e : Int} : dyadic m e < dyadic n e ↔ m < n := by
  rw [dyadic, dyadic, mul_lt_mul_iff_left₀ (two_zpow_pos e), Nat.cast_lt]

theorem dyadic_inj {m n : Nat} {e : Int} : dyadic m e = dyadic n e ↔ m = n := by
  rw [le_antisymm_iff, dyadic_le_dyadic, dyadic_le_dyadic, ← le_antisymm_iff]

theorem dyadic_succ (m : Nat) (e : Int) : dyadic (m + 1) e = dyadic m e + 2 ^ e := by
  rw [dyadic, dyadic]
  push_cast
  ring

theorem dyadic_add_le {m n : Nat} (h : m < n) (e : Int) : dyadic m e + 2 ^ e ≤ dyadic n e := by
  rw [← dyadic_succ]
  exact dyadic_le_dyadic.mpr h

theorem two_zpow_add_eq_dyadic (e : Int) (k : Nat) : (2 : ℚ) ^ (e + k) = dyadic (2 ^ k) e := by
  rw [two_zpow_add_natCast, dyadic, mul_comm]

/-- A normal form with any exponent, however large. -/
def IsReduced (m : Nat) (e : Int) : Prop :=
  m < 2 ^ 53 ∧ (0 < e → 2 ^ 52 ≤ m) ∧ (e < 0 → m % 2 = 1)

theorem IsNormal.isReduced {m : Nat} {e : Int} (h : IsNormal m e) : IsReduced m e := by
  obtain ⟨small, forms⟩ := h
  exact ⟨small, by omega, by omega⟩

namespace IsReduced

theorem exponent_le {m₁ m₂ : Nat} {e₁ e₂ : Int} (h₁ : IsReduced m₁ e₁) (h₂ : IsReduced m₂ e₂)
    (same : dyadic m₁ e₁ = dyadic m₂ e₂) : e₂ ≤ e₁ := by
  by_contra above
  obtain ⟨k, hk⟩ : ∃ k : Nat, e₂ = e₁ + (k + 1 : Nat) := ⟨(e₂ - e₁).toNat - 1, by omega⟩
  have double : m₁ = 2 * (m₂ * 2 ^ k) := by
    rw [hk, ← dyadic_mul_two_pow, dyadic_inj, Nat.pow_succ] at same
    rw [same]
    ac_rfl
  have grows : m₂ ≤ m₂ * 2 ^ k := Nat.le_mul_of_pos_right m₂ (Nat.two_pow_pos k)
  obtain ⟨small, -, odd⟩ := h₁
  obtain ⟨-, large, -⟩ := h₂
  omega

theorem unique {m₁ m₂ : Nat} {e₁ e₂ : Int} (h₁ : IsReduced m₁ e₁) (h₂ : IsReduced m₂ e₂)
    (same : dyadic m₁ e₁ = dyadic m₂ e₂) : m₁ = m₂ ∧ e₁ = e₂ := by
  obtain rfl : e₁ = e₂ := le_antisymm (exponent_le h₂ h₁ same.symm) (exponent_le h₁ h₂ same)
  exact ⟨dyadic_inj.mp same, rfl⟩

end IsReduced

theorem raise_spec {m : Nat} (nonzero : m ≠ 0) (bound : m ≤ 2 ^ 53) (k : Nat) :
    dyadic (raise m k).1 (raise m k).2 = dyadic m k ∧ IsReduced (raise m k).1 (raise m k).2 := by
  have lower := Nat.log2_self_le nonzero
  have upper := @Nat.lt_log2_self m
  have shifted : ∀ i, m.log2 + i ≤ 52 → m * 2 ^ i < 2 ^ 53 := by
    intro i bits
    calc m * 2 ^ i < 2 ^ (m.log2 + 1) * 2 ^ i := (Nat.mul_lt_mul_right (Nat.two_pow_pos i)).mpr upper
      _ = 2 ^ (m.log2 + 1 + i) := (Nat.pow_add ..).symm
      _ ≤ 2 ^ 53 := Nat.pow_le_pow_right (by decide) (by omega)
  simp only [raise, Nat.shiftLeft_eq]
  split
  · refine ⟨?_, shifted k (by omega), by omega, by omega⟩
    rw [dyadic_mul_two_pow, Int.zero_add]
  · split
    · have full : 2 ^ 52 ≤ m * 2 ^ (52 - m.log2) := by
        calc 2 ^ 52 = 2 ^ m.log2 * 2 ^ (52 - m.log2) := by rw [← Nat.pow_add]; congr 1; omega
          _ ≤ m * 2 ^ (52 - m.log2) := Nat.mul_le_mul_right _ lower
      refine ⟨?_, shifted _ (by omega), fun _ => full, by omega⟩
      rw [dyadic_mul_two_pow, Int.sub_add_cancel]
    · -- only `2 ^ 53` itself has a bit too many
      have atMost : m.log2 < 54 := (Nat.log2_lt nonzero).mpr (by omega)
      have bits : m.log2 = 53 := by omega
      rw [bits] at lower ⊢
      obtain rfl : m = 2 ^ 53 := by omega
      exact ⟨(dyadic_mul_two_pow (2 ^ 52) 1 k).symm, (by decide : 2 ^ 52 < 2 ^ 53),
        fun _ => Nat.le_refl _, by omega⟩

theorem stripTwos_spec (m fuel : Nat) : ∃ i, m = (stripTwos m fuel).1 * 2 ^ i ∧
    (stripTwos m fuel).2 + i = fuel ∧ ((stripTwos m fuel).2 ≠ 0 → (stripTwos m fuel).1 % 2 = 1) := by
  induction fuel generalizing m with
  | zero => exact ⟨0, (Nat.mul_one m).symm, rfl, fun h => absurd rfl h⟩
  | succ fuel ih =>
      rw [stripTwos]
      split
      · rename_i even
        obtain ⟨i, power, count, odd⟩ := ih (m / 2)
        refine ⟨i + 1, ?_, by omega, odd⟩
        rw [Nat.pow_succ, ← Nat.mul_assoc, ← power]
        omega
      · exact ⟨0, (Nat.mul_one m).symm, rfl, fun _ => by omega⟩

theorem settle_spec {m : Nat} (bound : m ≤ 2 ^ 53) (e : Int) :
    dyadic (settle m e).1 (settle m e).2 = dyadic m e ∧ IsReduced (settle m e).1 (settle m e).2 := by
  by_cases nonzero : m = 0
  · have zero : settle m e = (0, 0) := by cases e <;> simp only [settle, if_pos nonzero]
    rw [zero, nonzero]
    exact ⟨by simp [dyadic], by decide, by omega, by omega⟩
  cases e with
  | ofNat k =>
      rw [settle, if_neg nonzero]
      exact raise_spec nonzero bound k
  | negSucc k =>
      -- the fuel begins as the exponent, so what is left of it is the exponent in the end
      obtain ⟨i, power, count, odd⟩ := stripTwos_spec m (k + 1)
      have value : dyadic m (Int.negSucc k) =
          dyadic (stripTwos m (k + 1)).1 (-((stripTwos m (k + 1)).2 : Int)) := by
        have exponent : Int.negSucc k + i = -((stripTwos m (k + 1)).2 : Int) := by omega
        rw [← exponent, ← dyadic_mul_two_pow, ← power]
      have shrunk : (stripTwos m (k + 1)).1 ≤ m := by
        have grows := Nat.le_mul_of_pos_right (stripTwos m (k + 1)).1 (Nat.two_pow_pos i)
        rwa [← power] at grows
      have stripped : (stripTwos m (k + 1)).1 ≠ 0 := by
        intro zero
        rw [zero, Nat.zero_mul] at power
        exact nonzero power
      simp only [settle, if_neg nonzero, value]
      generalize stripTwos m (k + 1) = p at shrunk stripped odd ⊢
      obtain ⟨m', fuel⟩ := p
      cases fuel with
      | zero => exact raise_spec stripped (Nat.le_trans shrunk bound) 0
      | succ k' =>
          have odd' : m' % 2 = 1 := odd (Nat.succ_ne_zero k')
          have below : m' ≤ m := shrunk
          exact ⟨rfl, show m' < 2 ^ 53 by omega, fun h => absurd h (by simp), fun _ => odd'⟩

/-- What has the value of a number is that number. -/
theorem ofParts_eq_finite {m n : Nat} {e t : Int} (normal : IsNormal m e) (bound : n ≤ 2 ^ 53)
    (same : dyadic n t = dyadic m e) (negative : Bool) :
    ofParts negative n t = finite negative m e normal := by
  obtain ⟨value, reduced⟩ := settle_spec bound t
  obtain ⟨mantissa, exponent⟩ :=
    IsReduced.unique reduced (IsNormal.isReduced normal) (value.trans same)
  have settled : settle n t = (m, e) := Prod.ext mantissa exponent
  simp only [ofParts, settled, dif_pos normal]

/-- Among the multiples of `2 ^ e`, that by `m` is nearest to a value, and of two it is the even
one. -/
def IsNearest (v : ℚ) (m : Nat) (e : Int) : Prop :=
  |v - dyadic m e| < 2 ^ e / 2 ∨ |v - dyadic m e| = 2 ^ e / 2 ∧ m % 2 = 0

theorem IsNearest.le {v : ℚ} {m n : Nat} {e : Int} (hm : IsNearest v m e) (hn : IsNearest v n e) :
    n ≤ m := by
  by_contra below
  have grid := two_zpow_pos e
  have near : |v - dyadic m e| ≤ 2 ^ e / 2 := hm.elim le_of_lt fun h => h.1.le
  have near' : |v - dyadic n e| ≤ 2 ^ e / 2 := hn.elim le_of_lt fun h => h.1.le
  have apart : dyadic (m + 1) e ≤ dyadic n e := dyadic_le_dyadic.mpr (by omega)
  have next := dyadic_succ m e
  have high := le_abs_self (v - dyadic m e)
  have low := neg_abs_le (v - dyadic n e)
  -- the two are next to each other and equally near, so both would have to be even
  have adjacent : dyadic (m + 1) e = dyadic n e := by linarith
  have tie : |v - dyadic m e| = 2 ^ e / 2 := by linarith
  have tie' : |v - dyadic n e| = 2 ^ e / 2 := by linarith
  have even := (hm.resolve_left tie.not_lt).2
  have even' := (hn.resolve_left tie'.not_lt).2
  rw [← dyadic_inj.mp adjacent] at even'
  omega

theorem IsNearest.unique {v : ℚ} {m n : Nat} {e : Int} (hm : IsNearest v m e)
    (hn : IsNearest v n e) : m = n :=
  Nat.le_antisymm (hn.le hm) (hm.le hn)

theorem isNearest_of_le {v : ℚ} {m : Nat} {e : Int} (below : dyadic m e ≤ v)
    (near : v - dyadic m e < 2 ^ e / 2 ∨ v - dyadic m e = 2 ^ e / 2 ∧ m % 2 = 0) :
    IsNearest v m e := by
  rwa [IsNearest, abs_of_nonneg (sub_nonneg.mpr below)]

theorem isNearest_of_ge {v : ℚ} {m : Nat} {e : Int} (above : v ≤ dyadic m e)
    (near : dyadic m e - v < 2 ^ e / 2 ∨ dyadic m e - v = 2 ^ e / 2 ∧ m % 2 = 0) :
    IsNearest v m e := by
  rwa [IsNearest, abs_sub_comm, abs_of_nonneg (sub_nonneg.mpr above)]

theorem isNearest_self (m : Nat) (e : Int) : IsNearest (dyadic m e) m e := by
  refine isNearest_of_le (le_refl _) (.inl ?_)
  rw [sub_self]
  exact half_pos (two_zpow_pos e)

/-- A value cut down to a multiple of `2 ^ e`, with a note whether something was cut off. Where
something was, the multiple has more bits than a number keeps. -/
structure IsCut (v : ℚ) (n : Nat) (e : Int) (inexact : Bool) : Prop where
  lower : dyadic n e ≤ v
  upper : v < dyadic (n + 1) e
  exact_iff : v = dyadic n e ↔ inexact = false
  bits : inexact = true → 53 ≤ n.log2

/-- The multiple of `2 ^ (e + k)` that a cut value is rounded to. -/
def roundedQuotient (n k : Nat) (inexact : Bool) : Nat :=
  let quotient := n >>> k
  let rest := n - (quotient <<< k)
  let half := 1 <<< (k - 1)
  if half < rest || (rest == half && (inexact || quotient % 2 == 1)) then quotient + 1 else quotient

theorem IsCut.isNearest {v : ℚ} {n : Nat} {e : Int} {inexact : Bool} (cut : IsCut v n e inexact)
    (k : Nat) : IsNearest v (roundedQuotient n (k + 1) inexact) (e + (k + 1 : Nat)) := by
  obtain ⟨lower, upper, exact_iff, -⟩ := cut
  obtain ⟨q, hq⟩ : ∃ q, q = n / 2 ^ (k + 1) := ⟨_, rfl⟩
  obtain ⟨rest, hrest⟩ : ∃ rest, rest = n - q * 2 ^ (k + 1) := ⟨_, rfl⟩
  -- `n` is `q` steps of the coarser grid and a rest, and half a step is `2 ^ k`
  have split : n = q * (2 * 2 ^ k) + rest ∧ rest < 2 * 2 ^ k := by
    have below := Nat.div_mul_le_self n (2 ^ (k + 1))
    have remainder := Nat.mod_lt n (Nat.two_pow_pos (k + 1))
    rw [Nat.mod_eq_sub_div_mul] at remainder
    rw [← hq] at below remainder
    rw [← hrest] at remainder
    rw [Nat.pow_succ, Nat.mul_comm (2 ^ k)] at *
    omega
  have unit := two_zpow_pos e
  have scaled : ∀ {a b : Nat}, a < b → a * (2 : ℚ) ^ e + 2 ^ e ≤ b * 2 ^ e := by
    intro a b below
    have cast : (a : ℚ) + 1 ≤ b := by exact_mod_cast below
    linarith [mul_le_mul_of_nonneg_right cast unit.le]
  have grid : (2 : ℚ) ^ (e + (k + 1 : Nat)) = 2 * ((2 ^ k : Nat) * 2 ^ e) := by
    rw [two_zpow_add_natCast, Nat.pow_succ]
    push_cast
    ring
  have value : ∀ r, dyadic r (e + (k + 1 : Nat)) = r * (2 * ((2 ^ k : Nat) * 2 ^ e)) := by
    intro r
    rw [dyadic, grid]
  have whole : dyadic n e = q * (2 * ((2 ^ k : Nat) * 2 ^ e)) + rest * 2 ^ e := by
    rw [dyadic, split.1]
    push_cast
    ring
  have remainder := scaled split.2
  rw [Nat.cast_mul, Nat.cast_ofNat, mul_assoc] at remainder
  rw [dyadic_succ, whole] at upper
  rw [whole] at lower exact_iff
  simp only [roundedQuotient, Nat.shiftRight_eq_div_pow, Nat.shiftLeft_eq, ← hq, ← hrest,
    Nat.add_sub_cancel, Nat.one_mul, Bool.or_eq_true, Bool.and_eq_true, decide_eq_true_eq,
    beq_iff_eq]
  split
  · rename_i up
    refine isNearest_of_ge ?_ ?_
    · rw [value, Nat.cast_succ]
      linarith
    · rw [value, Nat.cast_succ, grid]
      -- up: past the half, or at it with something cut off, or at a tie with an odd quotient
      obtain more | ⟨rfl, open' | odd⟩ := up
      · exact .inl (by linarith [scaled more])
      · have strict := lower.lt_of_ne fun same => by simp [exact_iff.mp same.symm] at open'
        exact .inl (by linarith)
      · by_cases exact : inexact = false
        · exact .inr ⟨by linarith [exact_iff.mpr exact], by omega⟩
        · have strict := lower.lt_of_ne fun same => exact (exact_iff.mp same.symm)
          exact .inl (by linarith)
  · rename_i down
    refine isNearest_of_le ?_ ?_
    · rw [value]
      linarith [mul_nonneg (Nat.cast_nonneg rest) unit.le]
    · rw [value, grid]
      obtain less | rfl : rest < 2 ^ k ∨ rest = 2 ^ k := by omega
      · exact .inl (by linarith [scaled less])
      · have exact : inexact = false := by
          cases inexact <;> simp at down ⊢
        exact .inr ⟨by linarith [exact_iff.mpr exact], by omega⟩

theorem roundedQuotient_le {n k : Nat} (bits : n.log2 ≤ 52 + k) (inexact : Bool) :
    roundedQuotient n k inexact ≤ 2 ^ 53 := by
  have quotient : n / 2 ^ k < 2 ^ 53 := by
    refine Nat.div_lt_of_lt_mul (Nat.lt_of_lt_of_le Nat.lt_log2_self ?_)
    rw [← Nat.pow_add]
    exact Nat.pow_le_pow_right (by decide) (by omega)
  simp only [roundedQuotient, Nat.shiftRight_eq_div_pow]
  split <;> omega

/-- The exponent of the last place that the numbers near a positive value have. -/
def IsLastPlace (v : ℚ) (t : Int) : Prop :=
  ∃ l : Int, 2 ^ l ≤ v ∧ v < 2 ^ (l + 1) ∧ t = Max.max (l - 52) (-1074)

/-- A positive value is nearer to `m · 2 ^ e` than to any other number, or as near and `m · 2 ^ e`
is even in its last place. -/
def RoundsTo (v : ℚ) (m : Nat) (e : Int) : Prop :=
  ∃ r t, IsLastPlace v t ∧ IsNearest v r t ∧ dyadic r t = dyadic m e

theorem RoundsTo.pos {v : ℚ} {m : Nat} {e : Int} (h : RoundsTo v m e) : 0 < v := by
  obtain ⟨r, t, ⟨l, lower, -, -⟩, -, -⟩ := h
  exact (two_zpow_pos l).trans_le lower

theorem IsCut.lastPlace_eq {v : ℚ} {n : Nat} {e t : Int} {inexact : Bool}
    (cut : IsCut v n e inexact) (place : IsLastPlace v t) :
    t = Max.max (e + n.log2 - 52) (-1074) := by
  obtain ⟨l, lower, upper, rfl⟩ := place
  have nonzero : n ≠ 0 := by
    rintro rfl
    have exact : v = dyadic 0 e :=
      cut.exact_iff.mpr (Bool.eq_false_iff.mpr fun inexact => absurd (cut.bits inexact) (by simp))
    rw [exact, dyadic, Nat.cast_zero, zero_mul] at lower
    exact absurd (two_zpow_pos l) lower.not_gt
  have leading : (2 : ℚ) ^ (e + n.log2) ≤ v := by
    rw [two_zpow_add_eq_dyadic]
    exact (dyadic_le_dyadic.mpr (Nat.log2_self_le nonzero)).trans cut.lower
  have beyond : v < (2 : ℚ) ^ (e + (n.log2 + 1 : Nat)) := by
    rw [two_zpow_add_eq_dyadic]
    exact cut.upper.trans_le (dyadic_le_dyadic.mpr Nat.lt_log2_self)
  have above := (zpow_lt_zpow_iff_right₀ one_lt_two).mp (leading.trans_lt upper)
  have below := (zpow_lt_zpow_iff_right₀ one_lt_two).mp (lower.trans_lt beyond)
  omega

/-- A cut value becomes the number it is rounded to. -/
theorem RoundsTo.roundDyadic_eq {v : ℚ} {m : Nat} {e' : Int} (h : RoundsTo v m e')
    (normal : IsNormal m e') {n : Nat} {e : Int} {inexact : Bool} (cut : IsCut v n e inexact)
    (negative : Bool) : roundDyadic negative n e inexact = finite negative m e' normal := by
  obtain ⟨r, t, place, near, same⟩ := h
  have place := cut.lastPlace_eq place
  simp only [roundDyadic, ← place]
  split
  · rename_i fine
    have exact : v = dyadic n e := by
      refine cut.exact_iff.mpr (Bool.eq_false_iff.mpr fun inexact => ?_)
      have bits := cut.bits inexact
      omega
    obtain ⟨k, rfl⟩ : ∃ k : Nat, e = t + k := ⟨(e - t).toNat, by omega⟩
    have itself : IsNearest v (n * 2 ^ k) t := by
      rw [exact, ← dyadic_mul_two_pow]
      exact isNearest_self (n * 2 ^ k) t
    rw [near.unique itself, dyadic_mul_two_pow] at same
    have small : n ≤ 2 ^ 53 := by
      have power := Nat.pow_le_pow_right (n := 2) (by decide) (show n.log2 + 1 ≤ 53 by omega)
      exact Nat.le_of_lt (Nat.lt_of_lt_of_le Nat.lt_log2_self power)
    exact ofParts_eq_finite normal small same negative
  · rename_i coarse
    obtain ⟨k, rfl⟩ : ∃ k : Nat, t = e + (k + 1 : Nat) := ⟨(t - e).toNat - 1, by omega⟩
    have shift : (e + ((k + 1 : Nat) : Int) - e).toNat = k + 1 := by omega
    rw [near.unique (cut.isNearest k)] at same
    have small := roundedQuotient_le (n := n) (k := k + 1) (by omega) inexact
    rw [shift]
    exact ofParts_eq_finite normal small same negative

theorem isCut_dyadic (n : Nat) (e : Int) : IsCut (dyadic n e) n e false where
  lower := le_refl _
  upper := dyadic_lt_dyadic.mpr (Nat.lt_succ_self n)
  exact_iff := iff_of_true rfl rfl
  bits := fun h => absurd h Bool.false_ne_true

/-- A number is rounded to itself. -/
theorem roundsTo_dyadic {m : Nat} {e : Int} (normal : IsNormal m e) (nonzero : m ≠ 0) :
    RoundsTo (dyadic m e) m e := by
  obtain ⟨small, forms⟩ := normal
  have bits : m.log2 < 53 := (Nat.log2_lt nonzero).mpr small
  obtain ⟨t, place⟩ : ∃ t, t = Max.max (e + m.log2 - 52) (-1074) := ⟨_, rfl⟩
  obtain ⟨k, rfl⟩ : ∃ k : Nat, e = t + k := ⟨(e - t).toNat, by omega⟩
  refine ⟨m * 2 ^ k, t, ⟨t + k + m.log2, ?_, ?_, place⟩, ?_, dyadic_mul_two_pow m k t⟩
  · rw [two_zpow_add_eq_dyadic]
    exact dyadic_le_dyadic.mpr (Nat.log2_self_le nonzero)
  · have power : (2 : ℚ) ^ (t + k + m.log2 + 1) = dyadic (2 ^ (m.log2 + 1)) (t + k) := by
      rw [← two_zpow_add_eq_dyadic, Nat.cast_add, Nat.cast_one, ← add_assoc]
    rw [power]
    exact dyadic_lt_dyadic.mpr Nat.lt_log2_self
  · rw [← dyadic_mul_two_pow]
    exact isNearest_self (m * 2 ^ k) t

/-- A value that is a number becomes that number, however it is written. -/
theorem roundDyadic_eq_of_dyadic_eq (negative : Bool) {n m : Nat} {e k : Int}
    (normal : IsNormal m k) (same : dyadic n e = dyadic m k) (nonzero : m ≠ 0) :
    roundDyadic negative n e false = finite negative m k normal :=
  (roundsTo_dyadic normal nonzero).roundDyadic_eq normal (same ▸ isCut_dyadic n e) negative

theorem isCut_div {a b k : Nat} (positive : 0 < b) (wide : a * 2 ^ k % b ≠ 0 → 53 ≤ (a * 2 ^ k / b).log2) :
    IsCut (a / b) (a * 2 ^ k / b) (-(k : Int)) (a * 2 ^ k % b != 0) := by
  have power : (0 : ℚ) < ((2 ^ k : Nat) : ℚ) := by exact_mod_cast Nat.two_pow_pos k
  have divisor : (0 : ℚ) < b := by exact_mod_cast positive
  have value : ∀ q : Nat, dyadic q (-(k : Int)) = q / ((2 ^ k : Nat) : ℚ) := by
    intro q
    rw [dyadic, zpow_neg, zpow_natCast, Nat.cast_pow, Nat.cast_ofNat, div_eq_mul_inv]
  have split := Nat.div_add_mod' (a * 2 ^ k) b
  refine ⟨?_, ?_, ?_, ?_⟩
  · rw [value, div_le_div_iff₀ power divisor]
    exact_mod_cast Nat.div_mul_le_self (a * 2 ^ k) b
  · rw [value, div_lt_div_iff₀ divisor power]
    exact_mod_cast Nat.lt_mul_of_div_lt (Nat.lt_succ_self _) positive
  · rw [value, div_eq_div_iff divisor.ne' power.ne', bne_eq_false_iff_eq]
    norm_cast
    omega
  · intro inexact
    exact wide (by simpa using inexact)

theorem RoundsTo.numerator_ne_zero {a b m : Nat} {e : Int} (h : RoundsTo (a / b) m e) : a ≠ 0 := by
  rintro rfl
  have positive := h.pos
  rw [Nat.cast_zero, zero_div] at positive
  exact positive.false

theorem RoundsTo.ofRatio_eq {a b m : Nat} {e : Int} (h : RoundsTo (a / b) m e)
    (normal : IsNormal m e) (positive : 0 < b) (negative : Bool) :
    ofRatio negative a b = finite negative m e normal := by
  simp only [ofRatio, Nat.shiftLeft_eq]
  refine h.roundDyadic_eq normal (isCut_div positive fun _ => ?_) negative
  generalize shift : 55 + b.log2 - a.log2 = k
  have large : 2 ^ 53 * b ≤ a * 2 ^ k := by
    calc 2 ^ 53 * b ≤ 2 ^ 53 * 2 ^ (b.log2 + 1) := Nat.mul_le_mul_left _ (Nat.le_of_lt Nat.lt_log2_self)
      _ = 2 ^ (53 + (b.log2 + 1)) := (Nat.pow_add ..).symm
      _ ≤ 2 ^ (a.log2 + k) := Nat.pow_le_pow_right (by decide) (by omega)
      _ = 2 ^ a.log2 * 2 ^ k := Nat.pow_add ..
      _ ≤ a * 2 ^ k := Nat.mul_le_mul_right _ (Nat.log2_self_le h.numerator_ne_zero)
  have quotient : 2 ^ 53 ≤ a * 2 ^ k / b := (Nat.le_div_iff_mul_le positive).mpr large
  exact (Nat.le_log2 (by omega)).mpr quotient

theorem ofDecimal_integer {d : Nat} (nonzero : d ≠ 0) (width : Nat) (negative : Bool) :
    ofDecimal negative d width 0 = roundDyadic negative d 0 false := by
  have moderate : ¬ (400 : Int) < 0 := by decide
  have large : ¬ (0 : Int) + width < -400 := by omega
  simp only [ofDecimal, if_neg nonzero, if_neg moderate, if_neg large]
  rw [Nat.pow_zero, Nat.mul_one]

/-- A decimal without an exponent mark becomes the number it is rounded to. -/
theorem RoundsTo.ofDecimal_eq {d width places m : Nat} {e : Int}
    (h : RoundsTo (d / (10 ^ places : Nat)) m e) (normal : IsNormal m e) (written : places < width)
    (negative : Bool) :
    ofDecimal negative d width (-(places : Int)) = finite negative m e normal := by
  have nonzero := h.numerator_ne_zero
  cases places with
  | zero =>
      have value : (d : ℚ) / ((10 ^ 0 : Nat) : ℚ) = dyadic d 0 := by
        rw [Nat.pow_zero, Nat.cast_one, div_one, dyadic, zpow_zero, mul_one]
      rw [value] at h
      exact (ofDecimal_integer nonzero width negative).trans
        (h.roundDyadic_eq normal (isCut_dyadic d 0) negative)
  | succ places =>
      have moderate : ¬ 400 < -((places + 1 : Nat) : Int) := by omega
      have large : ¬ -((places + 1 : Nat) : Int) + width < -400 := by omega
      simp only [ofDecimal, if_neg nonzero, if_neg moderate, if_neg large]
      exact h.ofRatio_eq normal (Nat.pow_pos (by decide)) negative

end CharacterRules.Number
