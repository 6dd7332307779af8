import CharacterRules.Number.Shortest
import CharacterRules.Proofs.Number.Rounding
import CharacterRules.Proofs.Number.Step
import Mathlib.Data.Int.Log
import Mathlib.Data.Rat.Floor

/-!
The shortest decimal of a number. It lies in the interval of the values that are nearer to the number
than to any other, so it is rounded to that number; and the grid of seventeen digits has a point in
every such interval, so one is found.
-/

namespace CharacterRules.Number

/-- A mantissa with as many bits as its exponent allows. -/
structure IsFull (full : Nat) (x : Int) : Prop where
  pos : 0 < full
  lt : full < 2 ^ 53
  le_exponent : -1074 ≤ x
  wide : 2 ^ 52 ≤ full ∨ x = -1074

/-- The distance from a number down to the next one. -/
def gapBelow (full : Nat) (x : Int) : ℚ :=
  if full = 2 ^ 52 ∧ -1074 < x then 2 ^ x / 2 else 2 ^ x

theorem isLastPlace_of_lt {v : ℚ} {x : Int} (positive : 0 < v) (exponent : -1074 ≤ x)
    (upper : v < 2 ^ (x + 53)) (lower : 2 ^ (x + 52) ≤ v ∨ x = -1074) : IsLastPlace v x := by
  obtain lower | rfl := lower
  · exact ⟨x + 52, lower, by rwa [add_assoc], by omega⟩
  · have least := Int.zpow_log_le_self (b := 2) Nat.one_lt_two positive
    have above := Int.lt_zpow_succ_log_self (b := 2) Nat.one_lt_two v
    rw [Nat.cast_ofNat] at least above
    have bits := (zpow_lt_zpow_iff_right₀ one_lt_two).mp (least.trans_lt upper)
    exact ⟨Int.log 2 v, least, above, by omega⟩

/-- The place of a value between two numbers with the same last place. -/
theorem IsFull.isLastPlace {full : Nat} {x : Int} (h : IsFull full x) {v : ℚ} (positive : 0 < v)
    (upper : v < dyadic full x + 2 ^ x) (lower : dyadic (2 ^ 52) x ≤ v ∨ x = -1074) :
    IsLastPlace v x := by
  refine isLastPlace_of_lt positive h.le_exponent ?_ (lower.imp_left ?_)
  · exact upper.trans_le ((dyadic_add_le h.lt x).trans (two_zpow_add_eq_dyadic x 53).ge)
  · exact (two_zpow_add_eq_dyadic x 52).le.trans

theorem IsFull.two_zpow_le {full : Nat} {x : Int} (h : IsFull full x) : 2 ^ x ≤ dyadic full x := by
  have first := dyadic_add_le h.pos x
  rwa [dyadic, Nat.cast_zero, zero_mul, zero_add] at first

theorem IsFull.roundsTo_of_le {full : Nat} {x : Int} (h : IsFull full x) {v : ℚ}
    (above : dyadic full x ≤ v)
    (high : v < dyadic full x + 2 ^ x / 2 ∨ v = dyadic full x + 2 ^ x / 2 ∧ full % 2 = 0) :
    RoundsTo v full x := by
  have unit := two_zpow_pos x
  have first := h.two_zpow_le
  have upper : v ≤ dyadic full x + 2 ^ x / 2 := high.elim le_of_lt fun h => h.1.le
  have wide := h.wide.imp_left fun wide => (dyadic_le_dyadic (e := x).mpr wide).trans above
  refine ⟨full, x, h.isLastPlace (by linarith) (by linarith) wide, isNearest_of_le above ?_, rfl⟩
  refine high.imp (fun near => by linarith) fun tie => ⟨?_, tie.2⟩
  rw [tie.1, add_sub_cancel_left]

/-- Below a power of two the last place is finer. -/
theorem roundsTo_two_pow {y : Int} (exponent : -1074 ≤ y) {v : ℚ}
    (below : v < dyadic (2 ^ 53) y) (low : dyadic (2 ^ 53) y - 2 ^ y / 2 ≤ v) :
    RoundsTo v (2 ^ 53) y := by
  have unit := two_zpow_pos y
  have half : dyadic (2 ^ 52) y + 2 ^ y ≤ dyadic (2 ^ 53) y := dyadic_add_le (by decide) y
  have upper := below.trans_le (two_zpow_add_eq_dyadic y 53).ge
  have lower := (two_zpow_add_eq_dyadic y 52).le.trans (show dyadic (2 ^ 52) y ≤ v by linarith)
  have place := isLastPlace_of_lt ((two_zpow_pos _).trans_le lower) exponent upper (.inl lower)
  refine ⟨2 ^ 53, y, place, isNearest_of_ge below.le ?_, rfl⟩
  obtain strict | tie := (show dyadic (2 ^ 53) y - v ≤ 2 ^ y / 2 by linarith).lt_or_eq
  · exact .inl strict
  · exact .inr ⟨tie, by decide⟩

/-- A value nearer to a number than halfway to the next is rounded to the number; if that is even in
its last place, then also the values halfway. -/
theorem IsFull.roundsTo {full : Nat} {x : Int} (h : IsFull full x) {v : ℚ}
    (low : dyadic full x - gapBelow full x / 2 < v ∨
      v = dyadic full x - gapBelow full x / 2 ∧ full % 2 = 0)
    (high : v < dyadic full x + 2 ^ x / 2 ∨ v = dyadic full x + 2 ^ x / 2 ∧ full % 2 = 0) :
    RoundsTo v full x := by
  obtain above | below := le_or_gt (dyadic full x) v
  · exact h.roundsTo_of_le above high
  have unit := two_zpow_pos x
  have first := h.two_zpow_le
  have lower : dyadic full x - gapBelow full x / 2 ≤ v := low.elim le_of_lt fun h => h.1.ge
  rw [gapBelow] at low lower
  split at low
  · rename_i dense
    obtain ⟨rfl, inner⟩ := dense
    -- below a power of two the grid is finer: the value is rounded on it, to the power itself
    obtain ⟨y, rfl⟩ : ∃ y, x = y + (1 : Nat) := ⟨x - 1, by omega⟩
    have finer : dyadic (2 ^ 53) y = dyadic (2 ^ 52) (y + (1 : Nat)) :=
      dyadic_mul_two_pow (2 ^ 52) 1 y
    have quarter : (2 : ℚ) ^ (y + (1 : Nat)) / 2 = 2 ^ y := by
      rw [two_zpow_add_natCast]
      push_cast
      ring
    rw [if_pos ⟨rfl, inner⟩, quarter] at lower
    rw [← finer] at lower below
    obtain ⟨r, t, place, near, same⟩ := roundsTo_two_pow (by omega) below lower
    exact ⟨r, t, place, near, same.trans finer⟩
  · rename_i even
    rw [if_neg even] at lower
    have wide : dyadic (2 ^ 52) x ≤ v ∨ x = -1074 := by
      obtain wide | least := h.wide
      · by_cases least : x = -1074
        · exact .inr least
        · have exponent := h.le_exponent
          have next := dyadic_add_le (show 2 ^ 52 < full by omega) x
          exact .inl (by linarith)
      · exact .inr least
    refine ⟨full, x, h.isLastPlace (by linarith) (by linarith) wide, isNearest_of_ge below.le ?_, rfl⟩
    refine low.imp (fun near => by linarith) fun tie => ⟨?_, tie.2⟩
    rw [tie.1, sub_sub_cancel]

namespace Shortest

/-- A value lies between the ends of an interval, or is one of them if these count. -/
def Interval.Holds (i : Interval) (v : ℚ) : Prop :=
  ((i.numerator : ℚ) - i.below < v * i.denominator ∨
      v * i.denominator = i.numerator - i.below ∧ i.closed = true) ∧
    (v * i.denominator < i.numerator + i.above ∨
      v * i.denominator = i.numerator + i.above ∧ i.closed = true)

/-- What the fields of an interval are for a number with a full mantissa. -/
structure Interval.IsOf (i : Interval) (full : Nat) (x : Int) : Prop where
  positive : 0 < i.denominator
  numerator : (i.numerator : ℚ) = dyadic full x * i.denominator
  below : (i.below : ℚ) = gapBelow full x / 2 * i.denominator
  above : (i.above : ℚ) = 2 ^ x / 2 * i.denominator
  closed : i.closed = true ↔ full % 2 = 0

theorem isFull_of_isNormal {m shift : Nat} {e : Int} (normal : IsNormal m e) (nonzero : m ≠ 0)
    (h : shift = Nat.min (52 - m.log2) (e + 1074).toNat) : IsFull (m * 2 ^ shift) (e - shift) := by
  have lower := IsNormal.le_exponent normal
  have bits : m.log2 < 53 := (Nat.log2_lt nonzero).mpr normal.1
  have least : shift ≤ 52 - m.log2 ∧ shift ≤ (e + 1074).toNat ∧
      (shift = 52 - m.log2 ∨ shift = (e + 1074).toNat) := by
    rw [h, show Nat.min _ _ = _ from Nat.min_def]
    split <;> omega
  refine ⟨?_, ?_, by omega, ?_⟩
  · exact Nat.mul_pos (Nat.pos_of_ne_zero nonzero) (Nat.two_pow_pos shift)
  · calc m * 2 ^ shift < 2 ^ (m.log2 + 1) * 2 ^ shift :=
          (Nat.mul_lt_mul_right (Nat.two_pow_pos shift)).mpr Nat.lt_log2_self
      _ = 2 ^ (m.log2 + 1 + shift) := (Nat.pow_add ..).symm
      _ ≤ 2 ^ 53 := Nat.pow_le_pow_right (by decide) (by omega)
  · refine least.2.2.imp (fun wide => ?_) fun deep => by omega
    calc 2 ^ 52 = 2 ^ m.log2 * 2 ^ shift := by rw [← Nat.pow_add]; congr 1; omega
      _ ≤ m * 2 ^ shift := Nat.mul_le_mul_right _ (Nat.log2_self_le nonzero)

theorem Interval.isOf_ofParts {m shift : Nat} {e : Int}
    (h : shift = Nat.min (52 - m.log2) (e + 1074).toNat) :
    (Interval.ofParts m e).IsOf (m * 2 ^ shift) (e - shift) := by
  generalize hx : e - (shift : Int) = x
  -- the unit of the numerator is a quarter of the last place
  have scale : ((2 ^ (x - 2).toNat : Nat) : ℚ) = 2 ^ x / 4 * ((2 ^ (-(x - 2)).toNat : Nat) : ℚ) := by
    have exponent : x + ((-(x - 2)).toNat : Int) = 2 + ((x - 2).toNat : Int) := by omega
    have quarter := two_zpow_add_natCast x (-(x - 2)).toNat
    have four : (2 : ℚ) ^ (2 : Int) = 4 := by norm_num
    rw [exponent, two_zpow_add_natCast, four] at quarter
    linarith
  constructor <;> simp only [Interval.ofParts, ← h, hx, Nat.shiftLeft_eq, Nat.one_mul]
  · exact Nat.two_pow_pos _
  · rw [Nat.cast_mul, scale, dyadic]
    push_cast
    ring
  · have inner : -1076 < x - 2 ↔ -1074 < x := by omega
    rw [Nat.cast_mul, scale, gapBelow]
    simp only [inner]
    split <;> push_cast <;> ring
  · rw [Nat.cast_mul, scale]
    push_cast
    ring
  · exact beq_iff_eq

theorem Interval.IsOf.above_pos {i : Interval} {full : Nat} {x : Int} (h : i.IsOf full x) :
    0 < i.above := by
  have reach := mul_pos (half_pos (two_zpow_pos x)) (Nat.cast_pos.mpr h.positive)
  rw [← h.above] at reach
  exact Nat.cast_pos.mp reach

theorem Interval.IsOf.roundsTo {i : Interval} {full : Nat} {x : Int} (h : i.IsOf full x)
    (wide : IsFull full x) {v : ℚ} (holds : i.Holds v) : RoundsTo v full x := by
  have positive : (0 : ℚ) < i.denominator := Nat.cast_pos.mpr h.positive
  obtain ⟨low, high⟩ := holds
  rw [h.numerator, h.below, ← sub_mul, h.closed] at low
  rw [h.numerator, h.above, ← add_mul, h.closed] at high
  rw [mul_lt_mul_iff_left₀ positive, mul_left_inj' positive.ne'] at low high
  exact wide.roundsTo low high

theorem ten_zpow_mul_scale (exponent : Int) : (10 : ℚ) ^ exponent * (10 ^ (-exponent).toNat : Nat) =
    (10 ^ exponent.toNat : Nat) := by
  rw [Nat.cast_pow, Nat.cast_pow, Nat.cast_ofNat, ← zpow_natCast, ← zpow_natCast,
    ← zpow_add₀ (by norm_num)]
  congr 1
  omega

/-- A multiple of `10 ^ exponent` in an interval, in units of the grid. -/
theorem Interval.holds_of_grid {i : Interval} {exponent : Int} {scale unit digits : Nat}
    (hscale : scale = 10 ^ (-exponent).toNat) (hunit : unit = 10 ^ exponent.toNat * i.denominator)
    (low : i.numerator * scale < digits * unit + i.below * scale ∨
      i.numerator * scale = digits * unit + i.below * scale ∧ i.closed = true)
    (high : digits * unit < i.numerator * scale + i.above * scale ∨
      digits * unit = i.numerator * scale + i.above * scale ∧ i.closed = true) :
    i.Holds (digits * 10 ^ exponent) := by
  have positive : (0 : ℚ) < scale := by
    rw [hscale]
    exact_mod_cast Nat.pow_pos (by decide)
  have grid : (digits * 10 ^ exponent * i.denominator : ℚ) * scale = (digits * unit : Nat) := by
    rw [mul_right_comm, mul_assoc (digits : ℚ), hscale, ten_zpow_mul_scale, hunit, mul_assoc,
      Nat.cast_mul, Nat.cast_mul]
  constructor
  · refine low.imp (fun less => ?_) fun equal => ⟨?_, equal.2⟩
    · refine lt_of_mul_lt_mul_right ?_ positive.le
      rw [grid, sub_mul, sub_lt_iff_lt_add]
      exact_mod_cast less
    · refine mul_right_cancel₀ positive.ne' ?_
      rw [grid, sub_mul, eq_sub_iff_add_eq]
      exact_mod_cast equal.1.symm
  · refine high.imp (fun less => ?_) fun equal => ⟨?_, equal.2⟩
    · refine lt_of_mul_lt_mul_right ?_ positive.le
      rw [grid, add_mul]
      exact_mod_cast less
    · refine mul_right_cancel₀ positive.ne' ?_
      rw [grid, add_mul]
      exact_mod_cast equal.1

/-- Whether a distance from the number is within reach of an end of an interval. -/
def Interval.inside (i : Interval) (distance reach : Nat) : Bool :=
  if i.closed then distance ≤ reach else distance < reach

theorem Interval.inside_eq_true {i : Interval} {distance reach : Nat} :
    i.inside distance reach = true ↔ distance < reach ∨ distance = reach ∧ i.closed = true := by
  rw [inside]
  split
  · rename_i closed
    rw [decide_eq_true_eq, closed, and_iff_left rfl]
    exact Nat.le_iff_lt_or_eq
  · rename_i opened
    rw [decide_eq_true_eq, or_iff_left fun equal => opened equal.2]

theorem holds_of_onGrid? {i : Interval} {tie : TieRule} {exponent : Int} {digits : Nat}
    (positive : 0 < i.denominator) (reach : 0 < i.above)
    (h : onGrid? i tie exponent = some digits) : i.Holds (digits * 10 ^ exponent) := by
  obtain ⟨scale, hscale⟩ : ∃ scale, scale = 10 ^ (-exponent).toNat := ⟨_, rfl⟩
  obtain ⟨unit, hunit⟩ : ∃ unit, unit = 10 ^ exponent.toNat * i.denominator := ⟨_, rfl⟩
  have scaled : 0 < i.above * scale := by
    rw [hscale]
    exact Nat.mul_pos reach (Nat.pow_pos (by decide))
  have cell : 0 < unit := by
    rw [hunit]
    exact Nat.mul_pos (Nat.pow_pos (by decide)) positive
  have below := Nat.div_mul_le_self (i.numerator * scale) unit
  have above := Nat.lt_mul_of_div_lt (Nat.lt_add_one (i.numerator * scale / unit)) cell
  simp only [onGrid?, ← hscale, ← hunit, ← Interval.inside.eq_1] at h
  generalize i.numerator * scale / unit = low at *
  -- whichever neighbour is chosen, it is within reach
  have chosen : (digits = low ∧
        i.inside (i.numerator * scale - low * unit) (i.below * scale) = true) ∨
      (digits = low + 1 ∧
        i.inside ((low + 1) * unit - i.numerator * scale) (i.above * scale) = true) := by
    split at h
    · rename_i both
      rw [Bool.and_eq_true, Bool.and_eq_true, decide_eq_true_eq] at both
      cases h
      split
      · exact .inr ⟨rfl, both.2⟩
      · exact .inl ⟨rfl, both.1.2⟩
    · split at h
      · rename_i first
        rw [Bool.and_eq_true, decide_eq_true_eq] at first
        cases h
        exact .inl ⟨rfl, first.2⟩
      · split at h
        · rename_i second
          cases h
          exact .inr ⟨rfl, second⟩
        · cases h
  obtain ⟨rfl, inside⟩ | ⟨rfl, inside⟩ := chosen
  · rw [Interval.inside_eq_true] at inside
    refine Interval.holds_of_grid hscale hunit ?_ (.inl (by omega))
    exact inside.imp (fun less => by omega) fun equal => ⟨by omega, equal.2⟩
  · rw [Interval.inside_eq_true] at inside
    refine Interval.holds_of_grid hscale hunit (.inl (by omega)) ?_
    exact inside.imp (fun less => by omega) fun equal => ⟨by omega, equal.2⟩

/-- A grid finer than the reach upward has a point in the interval. -/
theorem onGrid?_isSome {i : Interval} {exponent : Int}
    (fine : (10 : ℚ) ^ exponent * i.denominator < i.above) (positive : 0 < i.denominator)
    (tie : TieRule) : (onGrid? i tie exponent).isSome = true := by
  obtain ⟨scale, hscale⟩ : ∃ scale, scale = 10 ^ (-exponent).toNat := ⟨_, rfl⟩
  obtain ⟨unit, hunit⟩ : ∃ unit, unit = 10 ^ exponent.toNat * i.denominator := ⟨_, rfl⟩
  have cell : 0 < unit := by
    rw [hunit]
    exact Nat.mul_pos (Nat.pow_pos (by decide)) positive
  have small : unit < i.above * scale := by
    have power : 0 < scale := by
      rw [hscale]
      exact Nat.pow_pos (by decide)
    have scaled := mul_lt_mul_of_pos_right fine (Nat.cast_pos.mpr power)
    rw [mul_right_comm, hscale, ten_zpow_mul_scale, ← hscale] at scaled
    rw [hunit]
    exact_mod_cast scaled
  have below := Nat.div_mul_le_self (i.numerator * scale) unit
  simp only [onGrid?, ← hscale, ← hunit, ← Interval.inside.eq_1]
  generalize i.numerator * scale / unit = low at *
  have next : i.inside ((low + 1) * unit - i.numerator * scale) (i.above * scale) = true := by
    rw [Nat.add_mul, Interval.inside_eq_true]
    exact .inl (by omega)
  rw [next, Bool.and_true, if_pos rfl]
  split <;> rfl

theorem lt_ten_pow_width (n : Nat) : n < 10 ^ width n :=
  (Nat.length_toDigits_le_iff (by decide) Nat.length_toDigits_pos).mp (Nat.le_refl _)

theorem ten_pow_width_le {n : Nat} (h : n ≠ 0) : 10 ^ (width n - 1) ≤ n := by
  by_contra below
  have first : 0 < width n - 1 := by
    by_contra zero
    rw [show width n - 1 = 0 by omega] at below
    omega
  have shorter := (Nat.length_toDigits_le_iff (by decide) first).mpr (Nat.lt_of_not_le below)
  change width n ≤ width n - 1 at shorter
  omega

theorem ten_zpow_leadingExponent_le {a b : Nat} (ha : 0 < a) (hb : 0 < b) :
    (10 : ℚ) ^ leadingExponent a b * b ≤ a := by
  rw [leadingExponent]
  split
  · rename_i above
    have digits : 0 < width (a / b) := Nat.length_toDigits_pos
    have exponent : (width (a / b) : Int) - 1 = ((width (a / b) - 1 : Nat) : Int) := by omega
    have leading := ten_pow_width_le (Nat.ne_of_gt (Nat.div_pos above hb))
    rw [exponent, zpow_natCast]
    exact_mod_cast (Nat.le_div_iff_mul_le hb).mp leading
  · have beyond := Nat.lt_mul_of_div_lt (lt_ten_pow_width ((b - 1) / a)) ha
    rw [zpow_neg, zpow_natCast, inv_mul_le_iff₀ (by positivity)]
    exact_mod_cast (show b ≤ 10 ^ width ((b - 1) / a) * a by omega)

/-- The search ends at the first grid with a point in the interval. -/
theorem onGrid?_search {i : Interval} {tie : TieRule} {fuel k : Nat} {exponent : Int} (h : k < fuel)
    (found : (onGrid? i tie (exponent - k)).isSome = true) :
    onGrid? i tie (search i tie fuel exponent).exponent =
      some (search i tie fuel exponent).digits := by
  induction fuel generalizing exponent k with
  | zero => exact absurd h (Nat.not_lt_zero k)
  | succ fuel ih =>
      rw [search]
      split
      · rename_i digits here
        exact here
      · rename_i none
        obtain ⟨k, rfl⟩ : ∃ j, k = j + 1 := by
          refine ⟨k - 1, ?_⟩
          cases k with
          | zero =>
              rw [Nat.cast_zero, sub_zero, none] at found
              cases found
          | succ k => rfl
        refine ih (Nat.lt_of_succ_lt_succ h) ?_
        rwa [Int.sub_sub, Int.add_comm 1]

end Shortest

/-- The exact value of a decimal. -/
def Decimal.value (d : Decimal) : ℚ := d.digits * 10 ^ d.exponent

namespace Shortest

theorem value_trimZeros (fuel : Nat) (d : Decimal) : (trimZeros fuel d).value = d.value := by
  induction fuel generalizing d with
  | zero => rfl
  | succ fuel ih =>
      rw [trimZeros]
      split
      · rename_i trailing
        have whole : (d.digits : ℚ) = 10 * (d.digits / 10 : Nat) := by
          exact_mod_cast (show d.digits = 10 * (d.digits / 10) by omega)
        rw [ih, Decimal.value, Decimal.value, whole, zpow_add_one₀ (by norm_num)]
        ring
      · rfl

/-- The grid of seventeen digits is finer than half the last place. -/
theorem Interval.IsOf.fine {i : Interval} {full : Nat} {x : Int} (h : i.IsOf full x)
    (wide : IsFull full x) :
    (10 : ℚ) ^ (leadingExponent i.numerator i.denominator - 17) * i.denominator < i.above := by
  have unit := two_zpow_pos x
  have positive : (0 : ℚ) < i.denominator := Nat.cast_pos.mpr h.positive
  have value : (0 : ℚ) < i.numerator := by
    rw [h.numerator]
    exact mul_pos (unit.trans_le wide.two_zpow_le) positive
  have leading := ten_zpow_leadingExponent_le (Nat.cast_pos.mp value) h.positive
  have small : (full : ℚ) ≤ 2 ^ 53 := by exact_mod_cast wide.lt.le
  have bound : (i.numerator : ℚ) ≤ 2 ^ 53 * (2 ^ x * i.denominator) := by
    rw [h.numerator, dyadic, mul_assoc]
    exact mul_le_mul_of_nonneg_right small (mul_pos unit positive).le
  have seventeen : (10 : ℚ) ^ (17 : Int) = 10 ^ 17 := by norm_cast
  rw [h.above, zpow_sub₀ (by norm_num), seventeen, div_mul_eq_mul_div, div_lt_iff₀ (by norm_num)]
  generalize (10 : ℚ) ^ leadingExponent i.numerator i.denominator * i.denominator = first at leading
  have both := mul_pos unit positive
  linarith

end Shortest

open Shortest in
/-- The shortest decimal of a number is rounded to the number. -/
theorem roundsTo_shortestDecimal (tie : TieRule) {m : Nat} {e : Int} (normal : IsNormal m e)
    (nonzero : m ≠ 0) : RoundsTo (shortestDecimal tie m e).value m e := by
  have wide := isFull_of_isNormal normal nonzero rfl
  have isOf : (Interval.ofParts m e).IsOf _ _ := Interval.isOf_ofParts rfl
  have found := onGrid?_search (by decide : 17 < 18) (onGrid?_isSome (isOf.fine wide) isOf.positive tie)
  have holds := holds_of_onGrid? isOf.positive isOf.above_pos found
  obtain ⟨r, t, place, near, same⟩ := isOf.roundsTo wide holds
  rw [shortestDecimal, value_trimZeros]
  refine ⟨r, t, place, near, same.trans ?_⟩
  rw [dyadic_mul_two_pow, Int.sub_add_cancel]

end CharacterRules.Number
