import CharacterRules.Proofs.Number.Shortest
import CharacterRules.Proofs.Number.Sum
import CharacterRules.Proofs.Number.Text
import CharacterRules.Proofs.Unicode.Case

/-!
Reading a number back. The positional text of a number is a numeral with the value of its shortest
decimal, which is rounded to the number; so every number is read back from its text. As it is shown to
readers, a number loses at most the sign of a zero.
-/

namespace CharacterRules.Number

/-- The digits before and behind the point of a numeral. -/
structure IsNumeral (whole part : List Char) : Prop where
  nonempty : whole ≠ []
  digits : ∀ c ∈ whole ++ part, c.isDigit = true

/-- The text of a numeral, without a point if it has no digits behind it. -/
def numeralText (whole part : List Char) : List Char :=
  whole ++ if part = [] then [] else '.' :: part

/-- The integer that the digits of a numeral form. -/
def numeralDigits (whole part : List Char) : Nat := Nat.ofDigitChars 10 (whole ++ part) 0

theorem digit?_of_isDigit {c : Char} (h : c.isDigit = true) :
    digit? c = some (c.toNat - '0'.toNat) := by
  rw [Char.isDigit, Bool.and_eq_true, decide_eq_true_eq, decide_eq_true_eq] at h
  exact if_pos h

theorem digit?_eq_none {c : Char} (h : c.isDigit = false) : digit? c = none := by
  refine if_neg fun digit => ?_
  rw [Char.isDigit, Bool.and_eq_false_iff, decide_eq_false_iff_not, decide_eq_false_iff_not] at h
  exact h.elim (fun low => low digit.1) fun high => high digit.2

theorem readDigits_append {text : List Char} (digits : ∀ c ∈ text, c.isDigit = true)
    (rest : List Char) (stop : ∀ c ∈ rest.head?, c.isDigit = false) (value width : Nat) :
    readDigits value width (text ++ rest) =
      (Nat.ofDigitChars 10 text value, width + text.length, rest) := by
  induction text generalizing value width with
  | nil =>
      cases rest with
      | nil => rfl
      | cons c rest => simp only [List.nil_append, readDigits, digit?_eq_none (stop c rfl)]; rfl
  | cons c text ih =>
      rw [List.cons_append, readDigits, digit?_of_isDigit (digits c List.mem_cons_self)]
      dsimp only
      rw [ih fun c hc => digits c (List.mem_cons_of_mem _ hc), Nat.ofDigitChars_cons, Nat.mul_comm,
        List.length_cons, Nat.add_right_comm, Nat.add_assoc]

/-- A numeral denotes its digits, moved by as many places as there are behind the point. -/
theorem readUnsigned?_numeralText {whole part : List Char} (h : IsNumeral whole part)
    (negative : Bool) : readUnsigned? negative (numeralText whole part) =
      some (ofDecimal negative (numeralDigits whole part) (whole.length + part.length)
        (-(part.length : Int))) := by
  have front := fun c hc => h.digits c (List.mem_append_left part hc)
  have behind := fun c hc => h.digits c (List.mem_append_right whole hc)
  have length := List.length_pos_of_ne_nil h.nonempty
  rw [numeralText, numeralDigits, readUnsigned?]
  by_cases point : part = []
  · subst point
    have first := readDigits_append front [] (by simp) 0 0
    rw [if_pos rfl, first]
    dsimp only
    rw [if_neg (by omega)]
    simp [readExponent?]
  · have first := readDigits_append front ('.' :: part) (by simp) 0 0
    have second := readDigits_append behind [] (by simp)
      (Nat.ofDigitChars 10 whole 0) (0 + whole.length)
    rw [List.append_nil] at second
    rw [if_neg point, first]
    simp only [second]
    rw [if_neg (by omega)]
    simp [readExponent?, Nat.ofDigitChars_append]

theorem toLower_of_isDigit {c : Char} (h : c.isDigit = true) : c.toLower = c :=
  Unicode.of_isDigit (P := fun c => c.toLower = c) (by decide) h

theorem ofText?_digit {c : Char} (h : c.isDigit = true) (rest : List Char) (negative : Bool) :
    ofText? (signText negative ++ String.ofList (c :: rest)) =
      readUnsigned? negative (c :: rest) := by
  have sign : readSign (signText negative ++ String.ofList (c :: rest)).toList =
      (negative, c :: rest) := by
    rw [String.toList_append, String.toList_ofList]
    cases negative with
    | true => rfl
    | false =>
        show readSign (c :: rest) = _
        rw [readSign]
        · rintro _ ⟨⟩
          cases h
        · rintro _ ⟨⟩
          cases h
  -- the words for infinity and not-a-number begin with no digit
  have word : ∀ {word : String}, word.toList.head? ≠ some c →
      String.ofList ((c :: rest).map Char.toLower) ≠ word := by
    rintro word other rfl
    rw [String.toList_ofList, List.map_cons, toLower_of_isDigit h] at other
    exact other rfl
  simp only [ofText?, sign]
  split
  · rename_i same
    refine absurd same (word ?_)
    rintro ⟨⟩
    cases h
  · rename_i same
    refine absurd same (word ?_)
    rintro ⟨⟩
    cases h
  · rename_i same
    refine absurd same (word ?_)
    rintro ⟨⟩
    cases h
  · rfl

theorem isDigit_of_mem_decimal {n : Nat} {c : Char} (h : c ∈ Nat.toDigits 10 n) :
    c.isDigit = true :=
  Nat.isDigit_of_mem_toDigits (by decide) (by decide) h

theorem isDigit_of_mem_zeros {count : Nat} {c : Char} (h : c ∈ zeros count) : c.isDigit = true := by
  rw [List.eq_of_mem_replicate h]
  decide

theorem isNumeral_toDigits (n : Nat) : IsNumeral (Nat.toDigits 10 n) [] where
  nonempty := Nat.toDigits_ne_nil
  digits := fun _ hc => isDigit_of_mem_decimal (by rwa [List.append_nil] at hc)

theorem ofDigitChars_zeros_append (count : Nat) (digits : List Char) :
    Nat.ofDigitChars 10 (zeros count ++ digits) 0 = Nat.ofDigitChars 10 digits 0 := by
  rw [Nat.ofDigitChars_append, zeros, Nat.ofDigitChars_replicate_zero, Nat.mul_zero]

theorem ofDigitChars_append_zeros (count : Nat) (digits : List Char) :
    Nat.ofDigitChars 10 (digits ++ zeros count) 0 = 10 ^ count * Nat.ofDigitChars 10 digits 0 := by
  rw [Nat.ofDigitChars_append, zeros, Nat.ofDigitChars_replicate_zero]

theorem Decimal.value_of_exponent {d : Decimal} {places : Nat} (h : d.exponent = -(places : Int)) :
    (d.digits : ℚ) / (10 ^ places : Nat) = d.value := by
  rw [Decimal.value, h, zpow_neg, zpow_natCast, Nat.cast_pow, Nat.cast_ofNat, div_eq_mul_inv]

/-- The positional text of a decimal is a numeral with the value of the decimal. -/
theorem Decimal.exists_positional_eq (d : Decimal) : ∃ whole part, IsNumeral whole part ∧
    d.positional = numeralText whole part ∧
      (numeralDigits whole part : ℚ) / (10 ^ part.length : Nat) = d.value := by
  have value : Nat.ofDigitChars 10 (Nat.toDigits 10 d.digits) 0 = d.digits :=
    Nat.ofDigitChars_ten_toDigits
  have nonempty : Nat.toDigits 10 d.digits ≠ [] := Nat.toDigits_ne_nil
  have digit : ∀ c ∈ Nat.toDigits 10 d.digits, c.isDigit = true := fun _ => isDigit_of_mem_decimal
  rw [Decimal.positional]
  dsimp only [Decimal.layout]
  generalize Nat.toDigits 10 d.digits = digits at *
  obtain ⟨point, hpoint⟩ : ∃ point : Int, point = digits.length + d.exponent := ⟨_, rfl⟩
  rw [← hpoint]
  split
  -- the point is in front of all digits, behind all of them, or among them
  · refine ⟨['0'], zeros (-point).toNat ++ digits, ⟨List.cons_ne_nil _ _, ?_⟩, ?_, ?_⟩
    · intro c hc
      obtain first | hc := List.mem_append.mp hc
      · rw [List.mem_singleton.mp first]
        decide
      · exact (List.mem_append.mp hc).elim isDigit_of_mem_zeros (digit c)
    · rw [numeralText, if_neg fun nothing => nonempty (List.append_eq_nil_iff.mp nothing).2]
      rfl
    · have zero : numeralDigits ['0'] (zeros (-point).toNat ++ digits) = d.digits := by
        rw [← value, ← ofDigitChars_zeros_append ((-point).toNat + 1)]
        rfl
      rw [zero]
      refine d.value_of_exponent ?_
      rw [List.length_append, zeros, List.length_replicate]
      omega
  · split
    · obtain ⟨count, hcount⟩ : ∃ count : Nat, point = digits.length + count :=
        ⟨(point - digits.length).toNat, by omega⟩
      have exponent : d.exponent = count := by omega
      rw [hcount, add_sub_cancel_left, Int.toNat_natCast]
      refine ⟨digits ++ zeros count, [], ⟨?_, ?_⟩, ?_, ?_⟩
      · exact fun nothing => nonempty (List.append_eq_nil_iff.mp nothing).1
      · intro c hc
        rw [List.append_nil] at hc
        exact (List.mem_append.mp hc).elim (digit c) isDigit_of_mem_zeros
      · rw [numeralText, if_pos rfl, List.append_nil]
      · rw [numeralDigits, List.append_nil, ofDigitChars_append_zeros, value, Decimal.value, exponent,
          zpow_natCast, List.length_nil, Nat.pow_zero, Nat.cast_one, div_one, Nat.cast_mul,
          Nat.cast_pow, Nat.cast_ofNat, mul_comm]
    · rename_i positive short
      have cut : point.toNat < digits.length := by omega
      refine ⟨digits.take point.toNat, digits.drop point.toNat, ⟨?_, ?_⟩, ?_, ?_⟩
      · rw [← List.length_pos_iff, List.length_take]
        omega
      · rwa [List.take_append_drop]
      · rw [numeralText, if_neg (by rwa [List.drop_eq_nil_iff, Nat.not_le])]
      · rw [numeralDigits, List.take_append_drop, value]
        refine d.value_of_exponent ?_
        rw [List.length_drop]
        omega

theorem ofText?_numeralText {whole part : List Char} (h : IsNumeral whole part) (negative : Bool) :
    ofText? (signText negative ++ String.ofList (numeralText whole part)) =
      some (ofDecimal negative (numeralDigits whole part) (whole.length + part.length)
        (-(part.length : Int))) := by
  rw [← readUnsigned?_numeralText h]
  obtain ⟨nonempty, digits⟩ := h
  cases whole with
  | nil => exact absurd rfl nonempty
  | cons c whole => exact ofText?_digit (digits c List.mem_cons_self) _ negative

/-- Every number is read back from its positional text. -/
theorem ofText?_positional (x : Number) : ofText? x.positional = some x := by
  cases x with
  | nan => decide
  | infinity negative => cases negative <;> decide
  | finite negative m e normal =>
      rw [positional]
      split
      · rename_i zero
        subst zero
        obtain ⟨sign, same⟩ := eq_signedZero_of_isZero (x := finite negative 0 e normal) rfl
        rw [same]
        cases same
        cases negative <;> decide
      · rename_i nonzero
        have rounds := roundsTo_shortestDecimal .up normal nonzero
        obtain ⟨whole, part, numeral, text, value⟩ := (shortestDecimal .up m e).exists_positional_eq
        have width : part.length < whole.length + part.length :=
          Nat.lt_add_of_pos_left (List.length_pos_of_ne_nil numeral.nonempty)
        rw [← value] at rounds
        rw [text, ofText?_numeralText numeral, rounds.ofDecimal_eq normal width]

theorem toString_int (i : Int) :
    toString i = signText (i < 0) ++ String.ofList (numeralText (Nat.toDigits 10 i.natAbs) []) := by
  rw [numeralText, if_pos rfl, List.append_nil, ← Nat.repr_eq_ofList_toDigits]
  cases i with
  | ofNat n =>
      rw [decide_eq_false (Int.not_lt.mpr (Int.natCast_nonneg n) : ¬ Int.ofNat n < 0)]
      exact String.empty_append.symm
  | negSucc n =>
      rw [decide_eq_true (Int.negSucc_lt_zero n)]
      rfl

theorem display_cases (x : Number) : (∃ i, x.toInt? = some i ∧ x.display = toString i) ∨
    (x.isZero = false ∧ x.display = x.positional) := by
  rw [display]
  split
  · rename_i i short
    exact .inl ⟨i, (Option.filter_eq_some_iff.mp short).1, rfl⟩
  · rename_i none
    refine .inr ⟨Bool.eq_false_iff.mpr fun zero => ?_, rfl⟩
    obtain ⟨sign, rfl⟩ := eq_signedZero_of_isZero zero
    cases sign <;> cases none

theorem natAbs_signed (negative : Bool) (n : Nat) : (signed negative n).natAbs = n := by
  cases negative with
  | false => exact Int.natAbs_natCast n
  | true => exact (Int.natAbs_neg n).trans (Int.natAbs_natCast n)

theorem signed_lt_zero (negative : Bool) {n : Nat} (h : n ≠ 0) :
    decide (signed negative n < 0) = negative := by
  cases negative with
  | false => exact decide_eq_false (by simp only [signed, Bool.false_eq_true, if_false]; omega)
  | true => exact decide_eq_true (by simp only [signed, if_true]; omega)

theorem ofText?_toString {x : Number} {i : Int} (h : x.toInt? = some i) :
    ofText? (toString i) = some (if x.isZero then 0 else x) := by
  obtain ⟨negative, m, k, normal, rfl, rfl⟩ := toInt?_eq_some.mp h
  have digits : ∀ n, numeralDigits (Nat.toDigits 10 n) [] = n := by
    intro n
    rw [numeralDigits, List.append_nil]
    exact Nat.ofDigitChars_ten_toDigits
  rw [toString_int, ofText?_numeralText (isNumeral_toDigits _), digits, natAbs_signed]
  by_cases zero : m = 0
  · subst zero
    rw [Nat.zero_mul]
    cases negative <;> rfl
  · have nonzero : m * 2 ^ k ≠ 0 := Nat.mul_ne_zero zero (Nat.two_pow_pos k).ne'
    have whole : (finite negative m k normal).isZero = false := beq_eq_false_iff_ne.mpr zero
    have rounded := roundDyadic_eq_of_normal negative normal (n := m * 2 ^ k) (e := 0) (by simp) nonzero
    rw [signed_lt_zero negative nonzero, whole]
    exact congrArg some ((ofDecimal_integer nonzero _ negative).trans rounded)

/-- A number is read back as it is shown, save that a zero is positive. -/
theorem ofText?_display (x : Number) : ofText? x.display = some (if x.isZero then 0 else x) := by
  obtain ⟨i, integer, shown⟩ | ⟨nonzero, shown⟩ := x.display_cases
  · rw [shown, ofText?_toString integer]
  · rw [shown, ofText?_positional, nonzero]
    rfl

/-- A finite number that is not negative is shown as a numeral. -/
theorem exists_display_eq {m : Nat} {e : Int} (normal : IsNormal m e) : ∃ whole part,
    IsNumeral whole part ∧
      (finite false m e normal).display = String.ofList (numeralText whole part) := by
  obtain ⟨i, integer, shown⟩ | ⟨nonzero, shown⟩ := (finite false m e normal).display_cases
  · obtain ⟨negative, m, k, normal, same, rfl⟩ := toInt?_eq_some.mp integer
    cases same
    refine ⟨_, [], isNumeral_toDigits (signed false (m * 2 ^ k)).natAbs, ?_⟩
    rw [shown, toString_int, decide_eq_false (by simp [signed])]
    exact String.empty_append
  · obtain ⟨whole, part, numeral, text, -⟩ := (shortestDecimal .up m e).exists_positional_eq
    refine ⟨whole, part, numeral, ?_⟩
    rw [shown, positional, if_neg (by simpa [isZero] using nonzero), text]
    exact String.empty_append

end CharacterRules.Number
