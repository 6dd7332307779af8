import CharacterRules.Proofs.Number.Equality
import CharacterRules.Value

/-!
Counts as sums of ones. The sum of naturals below `2 ^ 53` is their number as long as the result is
not above `2 ^ 53`; there, adding one more changes nothing.
-/

namespace CharacterRules

namespace Number

theorem settle_zero_exponent {n : Nat} (h : n < 2 ^ 53) : settle n 0 = (n, 0) := by
  by_cases zero : n = 0
  · simp [settle, zero]
  · have bits : n.log2 < 53 := (Nat.log2_lt zero).mpr h
    simp [settle, raise, zero, bits]

theorem ofNat_eq_roundDyadic (n : Nat) : ofNat n = roundDyadic false n 0 false := by
  by_cases h : n < 2 ^ 53
  · have bits : n.log2 < 53 := by
      by_cases zero : n = 0
      · simp [zero]
      · exact (Nat.log2_lt zero).mpr h
    have exact : Max.max (0 + (n.log2 : Int) - 52) (-1074) ≤ 0 := by omega
    have normal : IsNormal n 0 := ⟨h, .inl rfl⟩
    simp only [ofNat, h, dif_pos, roundDyadic, exact, if_pos, ofParts, settle_zero_exponent h,
      normal]
  · simp only [ofNat, h, dif_neg, not_false_eq_true]

theorem ofNat_add_ofNat {m n : Nat} (hm : m < 2 ^ 53) (hn : n < 2 ^ 53) :
    ofNat m + ofNat n = ofNat (m + n) := by
  have total : signed false m + signed false n = ((m + n : Nat) : Int) := by simp [signed]
  show (ofNat m).add (ofNat n) = _
  rw [ofNat_eq_roundDyadic (m + n)]
  simp only [ofNat, hm, hn, dif_pos, add, align, if_pos, total]
  split
  · rename_i none
    rw [Int.natCast_eq_zero.mp none]
    decide
  · have sign : decide (((m + n : Nat) : Int) < 0) = false :=
      decide_eq_false (Int.not_lt.mpr (Int.natCast_nonneg _))
    rw [sign, Int.natAbs_natCast]

/-- The sum of as many ones; from `2 ^ 53` on it stays as it is. -/
def count (n : Nat) : Number := ofNat (if n < 2 ^ 53 then n else 2 ^ 53)

theorem count_zero : count 0 = 0 := rfl

/-- A count is exact up to `2 ^ 53`. -/
theorem count_eq_ofNat {n : Nat} (h : n ≤ 2 ^ 53) : count n = ofNat n := by
  rw [count]
  split
  · rfl
  · rw [show n = 2 ^ 53 by omega]

/-- A count goes up by one with each one that is added. -/
theorem count_add_ofBool (n : Nat) (b : Bool) : count n + ofBool b = count (n + b.toNat) := by
  by_cases below : n < 2 ^ 53
  · have next : n + b.toNat ≤ 2 ^ 53 := Nat.le_trans (Nat.add_le_add_left b.toNat_le n) below
    rw [count_eq_ofNat (Nat.le_of_lt below), count_eq_ofNat next]
    cases b with
    | false => exact ofNat_add_ofNat below (show 0 < 2 ^ 53 by decide)
    | true => exact ofNat_add_ofNat below (show 1 < 2 ^ 53 by decide)
  · have still : ¬ n + b.toNat < 2 ^ 53 := by omega
    rw [count, count, if_neg below, if_neg still]
    cases b with
    | false => decide
    | true => decide

theorem isTruthy_count (n : Nat) : (Value.number (count n)).isTruthy = true ↔ n ≠ 0 := by
  rw [count]
  split
  · rename_i below
    have small : ofNat n = .finite false n 0 ⟨below, .inl rfl⟩ := dif_pos below
    rw [small]
    simp [Value.isTruthy, isZero, isNaN]
  · have on : (Value.number (ofNat (2 ^ 53))).isTruthy = true := by decide
    exact iff_of_true on (by omega)

end Number

/-- Whether a value stands for a count; nothing counted may also leave it absent. -/
def IsCount (value : Option Value) (n : Nat) : Prop :=
  (value = none ∧ n = 0) ∨ value = some (.number (.count n))

namespace IsCount

variable {value : Option Value} {n : Nat} (h : IsCount value n)

include h

theorem numberOrZero_eq : numberOrZero value = .count n := by
  obtain ⟨rfl, rfl⟩ | rfl := h
  · rw [Number.count_zero]
    rfl
  · rfl

theorem truthy_iff : truthy value = true ↔ n ≠ 0 := by
  obtain ⟨rfl, rfl⟩ | rfl := h
  · simp [truthy]
  · exact Number.isTruthy_count n

end IsCount
end CharacterRules
