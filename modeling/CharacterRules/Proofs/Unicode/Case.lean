import CharacterRules.Unicode.Case

/-!
What case mappings can and cannot produce. The characters beyond ASCII map to letters only, so a
mapping brings in no point, and a text in lower case has no Latin capital.
-/

namespace CharacterRules.Unicode

theorem le_bisect {α : Type} (xs : Array α) (below : α → Bool) (low high : Nat) :
    low ≤ bisect xs below low high := by
  fun_induction bisect xs below low high with
  | case1 low high inside middle x found accepted ih => omega
  | case2 low high inside middle x found rejected ih => exact ih
  | case3 low high inside middle outside => exact Nat.le_refl low
  | case4 low high => exact Nat.le_refl low

/-- The last element of the part that a bisection finds is accepted. -/
theorem exists_of_bisect_eq_succ {α : Type} {xs : Array α} {below : α → Bool} {low high n : Nat}
    (h : bisect xs below low high = n + 1) (above : low ≤ n) :
    ∃ x, xs[n]? = some x ∧ below x = true := by
  fun_induction bisect xs below low high with
  | case1 low high inside middle x found accepted ih =>
      by_cases later : middle + 1 ≤ n
      · exact ih h later
      · have reached := le_bisect xs below (middle + 1) high
        have last : n = middle := by omega
        exact ⟨x, last ▸ found, accepted⟩
  | case2 low high inside middle x found rejected ih => exact ih h above
  | case3 low high inside middle outside => omega
  | case4 low high => omega

theorem runOf?_eq_some {runs : Array CaseRun} {code : Nat} {run : CaseRun}
    (h : runOf? runs code = some run) : run ∈ runs.toList ∧ run.first ≤ code := by
  rw [runOf?] at h
  split at h
  · cases h
  · rename_i n found
    obtain ⟨first, hfirst, below⟩ := exists_of_bisect_eq_succ found (Nat.zero_le n)
    obtain ⟨hrun, -⟩ := Option.filter_eq_some_iff.mp h
    obtain rfl := Option.some.inj (hfirst.symm.trans hrun)
    exact ⟨Array.mem_toList_iff.mpr (Array.mem_of_getElem? hrun), of_decide_eq_true below⟩

/-- A mapping whose runs all lead above a bound keeps code points above it. -/
theorem lt_mapCode {runs : Array CaseRun} {bound code : Nat}
    (leads : ∀ run ∈ runs.toList, (bound : Int) < run.first + run.offset) (h : bound < code) :
    bound < mapCode runs code := by
  rw [mapCode]
  cases found : runOf? runs code with
  | none => exact h
  | some run =>
      obtain ⟨member, start⟩ := runOf?_eq_some found
      have lead := leads run member
      show bound < ((code : Int) + run.offset).toNat
      omega

theorem toNat_ofNat (n : Nat) : Char.ofNat n = '\x00' ∨ (Char.ofNat n).toNat = n := by
  by_cases valid : n.isValidChar
  · right
    rw [Char.ofNat, dif_pos valid]
    rfl
  · left
    rw [Char.ofNat, dif_neg valid]
    rfl

theorem lt_toNat_ofNat {bound code : Nat} (h : bound < code) :
    Char.ofNat code = '\x00' ∨ bound < (Char.ofNat code).toNat := by
  cases toNat_ofNat code with
  | inl none => exact .inl none
  | inr same => exact .inr (by rwa [same])

/-- Beyond ASCII, lower case has no capital of the Latin alphabet. -/
theorem toNat_of_mem_toLower {c x : Char} (wide : 128 ≤ c.toNat) (h : x ∈ toLower c) :
    x = '\x00' ∨ 90 < x.toNat := by
  rw [toLower, if_neg (by omega)] at h
  split at h
  · simp only [List.mem_cons, List.not_mem_nil, or_false] at h
    cases h with
    | inl eq =>
        obtain rfl := eq
        exact .inr (by decide)
    | inr eq =>
        obtain rfl := eq
        exact .inr (by decide)
  · obtain rfl := List.mem_singleton.mp h
    exact lt_toNat_ofNat (lt_mapCode (by decide +kernel) (by omega))

/-- Beyond ASCII, upper case has letters only. -/
theorem toNat_of_mem_toUpper {c x : Char} (wide : 128 ≤ c.toNat) (h : x ∈ toUpper c) :
    x = '\x00' ∨ 46 < x.toNat := by
  rw [toUpper, if_neg (by omega)] at h
  split at h
  · rename_i codes found
    have letters : ∀ entry ∈ upperSequences.toList, ∀ code ∈ entry.2, 46 < code := by
      decide
    obtain ⟨code, member, rfl⟩ := List.mem_map.mp h
    have entry := Array.mem_toList_iff.mpr (Array.mem_of_find?_eq_some found)
    exact lt_toNat_ofNat (letters _ entry code member)
  · obtain rfl := List.mem_singleton.mp h
    exact lt_toNat_ofNat (lt_mapCode (by decide +kernel) (by omega))

/-- What holds of each ASCII character can be checked one by one. -/
theorem of_ascii {P : Char → Prop} (h : ∀ n < 128, P (Char.ofNat n)) {c : Char}
    (ascii : c.toNat < 128) : P c := by
  have checked := h c.toNat ascii
  rwa [Char.ofNat_toNat] at checked

theorem of_isDigit {P : Char → Prop}
    (h : ∀ n < 128, (Char.ofNat n).isDigit = true → P (Char.ofNat n)) {c : Char}
    (digit : c.isDigit = true) : P c := by
  have range := digit
  rw [Char.isDigit, Bool.and_eq_true, decide_eq_true_eq, decide_eq_true_eq] at range
  have ascii : c.toNat < 128 := Nat.lt_of_le_of_lt range.2 (by decide)
  exact of_ascii (P := fun c => c.isDigit = true → P c) h ascii digit

theorem of_isAlphanum {P : Char → Prop}
    (h : ∀ n < 128, (Char.ofNat n).isAlphanum = true → P (Char.ofNat n)) {c : Char}
    (letter : c.isAlphanum = true) : P c := by
  have range := letter
  unfold Char.isAlphanum Char.isAlpha Char.isUpper Char.isLower Char.isDigit at range
  simp only [Bool.or_eq_true, Bool.and_eq_true, decide_eq_true_eq, UInt32.le_iff_toNat_le,
    ge_iff_le] at range
  change ((65 ≤ c.toNat ∧ c.toNat ≤ 90) ∨ (97 ≤ c.toNat ∧ c.toNat ≤ 122)) ∨
    (48 ≤ c.toNat ∧ c.toNat ≤ 57) at range
  exact of_ascii (P := fun c => c.isAlphanum = true → P c) h (by omega) letter

theorem capital_not_mem_toLower {x : Char} (capital : 65 ≤ x.toNat ∧ x.toNat ≤ 90) (c : Char) :
    x ∉ toLower c := by
  intro h
  by_cases ascii : c.toNat < 128
  · rw [toLower, if_pos ascii] at h
    rw [List.mem_singleton.mp h] at capital
    exact of_ascii (P := fun c => ¬(65 ≤ c.toLower.toNat ∧ c.toLower.toNat ≤ 90)) (by decide)
      ascii capital
  · cases toNat_of_mem_toLower (by omega) h with
    | inl none =>
        rw [none] at capital
        exact absurd capital.1 (by decide)
    | inr above => exact absurd above (Nat.not_lt.mpr capital.2)

theorem point_not_mem_toLower {c : Char} (hc : c ≠ '.') : '.' ∉ toLower c := by
  intro h
  by_cases ascii : c.toNat < 128
  · rw [toLower, if_pos ascii] at h
    exact of_ascii (P := fun c => c ≠ '.' → '.' ∉ [c.toLower]) (by decide) ascii hc h
  · cases toNat_of_mem_toLower (by omega) h with
    | inl none => exact absurd none (by decide)
    | inr above => exact absurd above (by decide)

theorem point_not_mem_toUpper {c : Char} (hc : c ≠ '.') : '.' ∉ toUpper c := by
  intro h
  by_cases ascii : c.toNat < 128
  · rw [toUpper, if_pos ascii] at h
    exact of_ascii (P := fun c => c ≠ '.' → '.' ∉ [c.toUpper]) (by decide) ascii hc h
  · cases toNat_of_mem_toUpper (by omega) h with
    | inl none => exact absurd none (by decide)
    | inr above => exact absurd above (by decide)

theorem capital_not_mem_lowerAfter {x : Char} (capital : 65 ≤ x.toNat ∧ x.toNat ≤ 90)
    (before text : List Char) : x ∉ lowerAfter before text := by
  induction text generalizing before with
  | nil => exact List.not_mem_nil
  | cons c rest ih =>
      intro h
      rw [lowerAfter, List.mem_append] at h
      cases h with
      | inl first =>
          split at first
          · have sigma : x = Char.ofNat 0x3C2 ∨ x = Char.ofNat 0x3C3 := by
              split at first
              · exact .inl (List.mem_singleton.mp first)
              · exact .inr (List.mem_singleton.mp first)
            obtain rfl | rfl := sigma <;> exact absurd capital.2 (by decide)
          · exact capital_not_mem_toLower capital c first
      | inr later => exact ih (c :: before) later

/-- A text in lower case has no capital from A to Z. -/
theorem capital_not_mem_lowercase {x : Char} (capital : 65 ≤ x.toNat ∧ x.toNat ≤ 90) (text : String) :
    x ∉ (lowercase text).toList := by
  rw [lowercase, String.toList_ofList]
  exact capital_not_mem_lowerAfter capital [] text.toList

end CharacterRules.Unicode
