import CharacterRules.Proofs.Number.Count

/-!
Steps of one. Adding one keeps a number positive. Subtracting one from a positive number is exact as
long as the number is below `2 ^ 53`, so ones can be taken away until nothing is left; from
`2 ^ 53 + 4` on, a number can be so large that one less rounds back to it.
-/

namespace CharacterRules.Number

theorem signed_shiftLeft_pos {n : Bool} {m k : Nat} :
    0 < signed n (m <<< k) ↔ n = false ∧ 0 < m := by
  have shifted : 0 < m <<< k ↔ 0 < m := by
    rw [Nat.shiftLeft_eq, Nat.mul_pos_iff_of_pos_right (Nat.two_pow_pos k)]
  generalize m <<< k = a at shifted
  cases n with
  | false => simp only [signed, Bool.false_eq_true, if_false, true_and]; omega
  | true => simp only [signed, if_true, reduceCtorEq, false_and, iff_false]; omega

theorem lt_zero_finite {n : Bool} {m : Nat} {e : Int} {normal : IsNormal m e} :
    Number.lt 0 (.finite n m e normal) = true ↔ n = false ∧ 0 < m := by
  have aligned : ∃ k, order? 0 (.finite n m e normal) = some (compare 0 (signed n (m <<< k))) := by
    have zero : ∀ k, signed false (0 <<< k) = 0 := by simp [signed]
    show ∃ k, order? (signedZero false) _ = _
    simp only [signedZero, order?, align]
    split
    · exact ⟨0, rfl⟩
    · split
      · exact ⟨_, rfl⟩
      · exact ⟨0, by rw [zero]; rfl⟩
  obtain ⟨k, hk⟩ := aligned
  rw [lt, hk, beq_iff_eq, Option.some.injEq, Std.compare_eq_lt, signed_shiftLeft_pos]

theorem lt_zero_infinity {n : Bool} : Number.lt 0 (.infinity n) = true ↔ n = false := by
  cases n <;> decide

theorem isZero_of_lt_zero {x : Number} (h : Number.lt 0 x = true) : x.isZero = false := by
  cases x with
  | nan => rfl
  | infinity n => rfl
  | finite n m e normal =>
      have positive := (lt_zero_finite.mp h).2
      simp only [isZero, beq_eq_false_iff_ne]
      omega

theorem stripTwos_pos {m : Nat} (h : 0 < m) (fuel : Nat) : 0 < (stripTwos m fuel).1 := by
  induction fuel generalizing m with
  | zero => exact h
  | succ fuel ih =>
      rw [stripTwos]
      split
      · exact ih (by omega)
      · exact h

theorem stripTwos_of_odd {m : Nat} (h : m % 2 = 1) (fuel : Nat) :
    stripTwos m fuel = (m, fuel) := by
  cases fuel with
  | zero => rfl
  | succ fuel => rw [stripTwos, if_neg (by omega)]

theorem shiftRight_pos {m k : Nat} (h : m ≠ 0) (hk : k ≤ m.log2) : 0 < m >>> k := by
  rw [Nat.shiftRight_eq_div_pow]
  refine Nat.div_pos ?_ (Nat.two_pow_pos k)
  exact Nat.le_trans (Nat.pow_le_pow_right (by decide) hk) (Nat.log2_self_le h)

theorem raise_pos {m : Nat} (h : 0 < m) (k : Nat) : 0 < (raise m k).1 := by
  have shifted : ∀ i, 0 < m <<< i := by
    intro i
    rw [Nat.shiftLeft_eq]
    exact Nat.mul_pos h (Nat.two_pow_pos i)
  simp only [raise]
  split
  · exact shifted k
  · split
    · exact shifted _
    · exact shiftRight_pos (by omega) (by omega)

theorem settle_pos {m : Nat} (h : 0 < m) (e : Int) : 0 < (settle m e).1 := by
  have nonzero : m ≠ 0 := by omega
  cases e with
  | ofNat k =>
      rw [settle, if_neg nonzero]
      exact raise_pos h k
  | negSucc k =>
      have stripped := stripTwos_pos h (k + 1)
      simp only [settle, if_neg nonzero]
      split
      · rename_i m' eq
        rw [eq] at stripped
        exact raise_pos stripped 0
      · rename_i m' k' eq
        rwa [eq] at stripped

theorem lt_zero_ofParts {n : Bool} {m : Nat} (h : 0 < m) (e : Int) :
    Number.lt 0 (ofParts n m e) = true ↔ n = false := by
  simp only [ofParts]
  split
  · rw [lt_zero_finite, and_iff_left (settle_pos h e)]
  · exact lt_zero_infinity

/-- Rounding keeps the sign: not even the smallest positive number is rounded to zero. -/
theorem lt_zero_roundDyadic {n : Bool} {m : Nat} (h : 0 < m) {e : Int} (he : -1074 ≤ e)
    (inexact : Bool) : Number.lt 0 (roundDyadic n m e inexact) = true ↔ n = false := by
  simp only [roundDyadic]
  split
  · exact lt_zero_ofParts h e
  · rename_i above
    have quotient : 0 < m >>> (Max.max (e + (m.log2 : Int) - 52) (-1074) - e).toNat :=
      shiftRight_pos (by omega) (by omega)
    refine lt_zero_ofParts ?_ _
    split <;> omega

theorem IsNormal.le_exponent {m : Nat} {e : Int} (h : IsNormal m e) : -1074 ≤ e := by
  obtain ⟨-, zero | large | small⟩ := h <;> omega

theorem finite_add {n₁ n₂ : Bool} {m₁ m₂ : Nat} {e₁ e₂ : Int} (normal₁ : IsNormal m₁ e₁)
    (normal₂ : IsNormal m₂ e₂) {a b : Nat} {e : Int} (h : align m₁ e₁ m₂ e₂ = (a, b, e)) :
    finite n₁ m₁ e₁ normal₁ + finite n₂ m₂ e₂ normal₂ =
      if signed n₁ a + signed n₂ b = 0 then signedZero (n₁ && n₂)
      else roundDyadic (signed n₁ a + signed n₂ b < 0) (signed n₁ a + signed n₂ b).natAbs e
        false := by
  show add _ _ = _
  simp only [add, h]

/-- The mantissa and the exponent that a number has when it is aligned with one. -/
theorem of_align_one {m a b : Nat} {e e' : Int} (normal : IsNormal m e)
    (h : align m e 1 0 = (a, b, e')) : (0 < a ↔ 0 < m) ∧ -1074 ≤ e' := by
  have lower := IsNormal.le_exponent normal
  simp only [align] at h
  split at h
  · cases h
    exact ⟨Iff.rfl, lower⟩
  · split at h
    · cases h
      exact ⟨Iff.rfl, lower⟩
    · cases h
      rw [Nat.shiftLeft_eq, Nat.mul_pos_iff_of_pos_right (Nat.two_pow_pos _)]
      exact ⟨Iff.rfl, by decide⟩

theorem lt_zero_add_one {x : Number} (h : Number.lt 0 x = true) : Number.lt 0 (x + 1) = true := by
  cases x with
  | nan => cases h
  | infinity n =>
      rw [lt_zero_infinity.mp h]
      decide
  | finite n m e normal =>
      obtain ⟨rfl, positive⟩ := lt_zero_finite.mp h
      obtain ⟨a, b, e', aligned⟩ : ∃ a b e', align m e 1 0 = (a, b, e') := ⟨_, _, _, rfl⟩
      obtain ⟨same, lower⟩ := of_align_one normal aligned
      have grown := same.mpr positive
      have one : (1 : Number) = finite false 1 0 (by decide) := rfl
      rw [one, finite_add normal _ aligned]
      have total : 0 < signed false a + signed false b := by simp [signed]; omega
      rw [if_neg (by omega), lt_zero_roundDyadic (by omega) lower]
      exact decide_eq_false (by omega)

theorem lt_zero_of_sub_one {x : Number} (h : Number.lt 0 (x - 1) = true) :
    Number.lt 0 x = true := by
  cases x with
  | nan => cases h
  | infinity n => cases n <;> first | rfl | cases h
  | finite n m e normal =>
      obtain ⟨a, b, e', aligned⟩ : ∃ a b e', align m e 1 0 = (a, b, e') := ⟨_, _, _, rfl⟩
      obtain ⟨same, lower⟩ := of_align_one normal aligned
      change Number.lt 0 (finite n m e normal + finite true 1 0 (by decide)) = true at h
      rw [finite_add normal _ aligned] at h
      split at h
      · exact absurd h (by cases n <;> decide)
      · rename_i nonzero
        rw [lt_zero_roundDyadic (by omega) lower, decide_eq_false_iff_not] at h
        rw [lt_zero_finite, ← same]
        cases n with
        | false =>
            simp only [signed, Bool.false_eq_true, if_false, if_true] at h nonzero
            exact ⟨rfl, by omega⟩
        | true =>
            simp only [signed, if_true] at h nonzero
            omega

/-- A number in normal form below `2 ^ 53` needs no rounding. -/
theorem roundDyadic_eq_finite {m k : Nat} {e : Int} (he : e = -(k : Int)) (normal : IsNormal m e) :
    roundDyadic false m e false = finite false m e normal := by
  have small : m.log2 ≤ 52 := by
    by_cases zero : m = 0
    · simp [zero]
    · have bits := (Nat.log2_lt zero).mpr normal.1
      omega
  have lower := IsNormal.le_exponent normal
  have target : Max.max (e + (m.log2 : Int) - 52) (-1074) ≤ e := by omega
  have settled : settle m e = (m, e) := by
    subst he
    cases k with
    | zero => exact settle_zero_exponent normal.1
    | succ k =>
        have odd : m % 2 = 1 := by
          obtain ⟨-, zero | large | small⟩ := normal <;> omega
        show settle m (Int.negSucc k) = (m, Int.negSucc k)
        simp only [settle, if_neg (show m ≠ 0 by omega), stripTwos_of_odd odd]
  simp only [roundDyadic, if_pos target, ofParts, settled, dif_pos normal]

theorem align_one {m k : Nat} {e : Int} (he : e = -(k : Int)) : align m e 1 0 = (m, 2 ^ k, e) := by
  subst he
  cases k with
  | zero => rfl
  | succ k =>
      have below : -((k + 1 : Nat) : Int) < 0 := by omega
      have shift : (0 - -((k + 1 : Nat) : Int)).toNat = k + 1 := by omega
      rw [align, if_neg (by omega), if_pos below, shift, Nat.shiftLeft_eq, Nat.one_mul]

theorem IsNormal.sub_power {m k : Nat} {e : Int} (he : e = -(k : Int)) (normal : IsNormal m e)
    (h : 2 ^ k < m) : IsNormal (m - 2 ^ k) e := by
  obtain ⟨small, forms⟩ := normal
  refine ⟨Nat.lt_of_le_of_lt (Nat.sub_le m (2 ^ k)) small, ?_⟩
  cases k with
  | zero => exact .inl he
  | succ k =>
      have even : 2 ^ (k + 1) % 2 = 0 := by rw [Nat.pow_succ]; omega
      omega

/-- Below `2 ^ 53` the difference to one is exact. -/
theorem sub_one_eq {m k : Nat} {e : Int} (he : e = -(k : Int)) (normal : IsNormal m e)
    (h : 2 ^ k < m) : finite false m e normal - 1 =
      finite false (m - 2 ^ k) e (IsNormal.sub_power he normal h) := by
  have total : signed false m + signed true (2 ^ k) = ((m - 2 ^ k : Nat) : Int) := by
    simp only [signed, Bool.false_eq_true, if_false, if_true]
    omega
  show finite false m e normal + finite true 1 0 (by decide) = _
  rw [finite_add normal _ (align_one he), total, if_neg (by omega),
    decide_eq_false (by omega), Int.natAbs_natCast, roundDyadic_eq_finite he]

theorem not_lt_zero_sub_one {m k : Nat} {e : Int} (he : e = -(k : Int)) (normal : IsNormal m e)
    (h : m ≤ 2 ^ k) : Number.lt 0 (finite false m e normal - 1) = false := by
  have total : signed false m + signed true (2 ^ k) = (m : Int) - (2 ^ k : Nat) := by
    simp only [signed, Bool.false_eq_true, if_false, if_true]
    omega
  have lower := IsNormal.le_exponent normal
  rw [Bool.eq_false_iff]
  show Number.lt 0 (finite false m e normal + finite true 1 0 (by decide)) ≠ true
  rw [finite_add normal _ (align_one he), total]
  split
  · decide
  · rw [Ne, lt_zero_roundDyadic (by omega) lower, decide_eq_false_iff_not, Decidable.not_not]
    omega

/-- Whether `n` ones taken away one after another are enough to leave nothing of a number. -/
def fadesIn : Nat → Number → Bool
  | 0, x => !Number.lt 0 x
  | n + 1, x => !Number.lt 0 x || fadesIn n (x - 1)

theorem fadesIn_succ {n : Nat} {x : Number} (h : fadesIn n (x - 1) = true) :
    fadesIn (n + 1) x = true := by
  rw [fadesIn, h, Bool.or_true]

theorem exists_fadesIn_finite {m k : Nat} {e : Int} (he : e = -(k : Int))
    (normal : IsNormal m e) : ∃ n, fadesIn n (finite false m e normal) = true := by
  -- one less is a smaller mantissa with the same exponent, until at most one is left
  induction m using Nat.strongRecOn with
  | ind m ih =>
      by_cases more : 2 ^ k < m
      · have less : m - 2 ^ k < m := Nat.sub_lt (Nat.zero_lt_of_lt more) (Nat.two_pow_pos k)
        obtain ⟨n, hn⟩ := ih (m - 2 ^ k) less (IsNormal.sub_power he normal more)
        exact ⟨n + 1, fadesIn_succ (sub_one_eq he normal more ▸ hn)⟩
      · have last := not_lt_zero_sub_one he normal (by omega)
        exact ⟨1, fadesIn_succ (by rw [fadesIn, last]; rfl)⟩

/-- The least positive number that stays as it is when one is subtracted. -/
def stayingPoint : Number := ofNat (2 ^ 53 + 4)

theorem stayingPoint_sub_one : stayingPoint - 1 = stayingPoint := by decide

theorem le_finite {m₁ m₂ : Nat} {e₁ e₂ : Int} (normal₁ : IsNormal m₁ e₁)
    (normal₂ : IsNormal m₂ e₂) {a b : Nat} {e : Int} (h : align m₁ e₁ m₂ e₂ = (a, b, e)) :
    (finite false m₁ e₁ normal₁).le (finite false m₂ e₂ normal₂) = true ↔ a ≤ b := by
  have order : (finite false m₁ e₁ normal₁).order? (finite false m₂ e₂ normal₂) =
      some (compare (a : Int) b) := by
    simp only [order?, h, signed, Bool.false_eq_true, if_false]
  rw [le, order, ← Int.ofNat_le, ← Std.isLE_compare]
  cases compare (a : Int) b <;> simp

theorem exponent_eq_one_of_not_le {m : Nat} {e : Int} (normal : IsNormal m e) (whole : 0 < e)
    (h : stayingPoint.le (finite false m e normal) = false) : e = 1 ∧ m < 2 ^ 52 + 2 := by
  have staying : stayingPoint = finite false (2 ^ 52 + 2) 1 (by decide) := by decide
  have large : 2 ^ 52 ≤ m := by
    obtain ⟨-, zero | large | small⟩ := normal <;> omega
  obtain ⟨k, rfl⟩ : ∃ k : Nat, e = 1 + k := ⟨(e - 1).toNat, by omega⟩
  have aligned : align (2 ^ 52 + 2) 1 m (1 + k) = (2 ^ 52 + 2, m <<< k, 1) := by
    cases k with
    | zero => rfl
    | succ k =>
        have shift : (1 + ((k + 1 : Nat) : Int) - 1).toNat = k + 1 := by omega
        rw [align, if_neg (by omega), if_pos (by omega), shift]
  have below : m <<< k < 2 ^ 52 + 2 := by
    rw [staying, ← Bool.not_eq_true, le_finite _ normal aligned] at h
    exact Nat.lt_of_not_le h
  rw [Nat.shiftLeft_eq] at below
  cases k with
  | zero => exact ⟨rfl, by omega⟩
  | succ k =>
      have power := Nat.two_pow_pos k
      have doubled : m * 2 ≤ m * 2 ^ (k + 1) := Nat.mul_le_mul_left m (by rw [Nat.pow_succ]; omega)
      omega

theorem exists_fadesIn_two_pow :
    ∃ n, fadesIn n (finite false (2 ^ 52) 1 (by decide)) = true := by
  obtain ⟨n, hn⟩ := exists_fadesIn_finite rfl (show IsNormal (2 ^ 53 - 1) (-(0 : Nat)) by decide)
  have less : finite false (2 ^ 52) 1 (by decide) - 1 =
      finite false (2 ^ 53 - 1) (-(0 : Nat)) (by decide) := by decide
  exact ⟨n + 1, fadesIn_succ (less ▸ hn)⟩

/-- Of every number below the staying point, ones can be taken away until nothing is left. -/
theorem exists_fadesIn {x : Number} (h : stayingPoint.le x = false) : ∃ n, fadesIn n x = true := by
  cases x with
  | nan => exact ⟨0, rfl⟩
  | infinity n =>
      cases n with
      | false => exact absurd h (by decide)
      | true => exact ⟨0, rfl⟩
  | finite n m e normal =>
      cases n with
      | true => exact ⟨0, by simp [fadesIn, ← Bool.not_eq_true, lt_zero_finite]⟩
      | false =>
          -- above `2 ^ 53` only two numbers are left, and they step below it
          by_cases whole : 0 < e
          · obtain ⟨rfl, below⟩ := exponent_eq_one_of_not_le normal whole h
            have large : 2 ^ 52 ≤ m := by
              obtain ⟨-, zero | large | small⟩ := normal <;> omega
            obtain rfl | rfl : m = 2 ^ 52 ∨ m = 2 ^ 52 + 1 := by omega
            · exact exists_fadesIn_two_pow
            · obtain ⟨n, hn⟩ := exists_fadesIn_two_pow
              have less : finite false (2 ^ 52 + 1) 1 (by decide) - 1 =
                  finite false (2 ^ 52) 1 (by decide) := by decide
              exact ⟨n + 1, fadesIn_succ (less ▸ hn)⟩
          · obtain ⟨k, hk⟩ : ∃ k : Nat, e = -(k : Int) := ⟨e.natAbs, by omega⟩
            exact exists_fadesIn_finite hk normal

end CharacterRules.Number
