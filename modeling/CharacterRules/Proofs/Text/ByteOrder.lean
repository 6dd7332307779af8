import CharacterRules.Proofs.Text.Bytes

/-!
Texts in the order of their bytes. The UTF-8 forms of two characters differ at a byte that both have, and
there the lesser character has the lesser byte. So texts stand in the same order by their bytes as by
their characters, and one begins with another by its bytes if it does by its characters.
-/

namespace CharacterRules.Text

-- Powers of naturals are those of the core library, also next to an algebraic hierarchy.
attribute [local instance (high)] instPowNat

/-- The bytes of a text in its UTF-8 form. -/
def bytes (text : String) : List UInt8 := text.toUTF8.data.toList

/-- Whether a run of bytes comes before another whatever follows the two. -/
def Precedes (x y : List UInt8) : Prop := ∀ r s : List UInt8, x ++ r < y ++ s

namespace Precedes

variable {x y : List UInt8}

theorem of_first {a b : Nat} (less : a < b) (small : b < 256) :
    Precedes (UInt8.ofNat a :: x) (UInt8.ofNat b :: y) := by
  intro _ _
  refine List.cons_lt_cons_iff.mpr (.inl ?_)
  exact (UInt8.ofNat_lt_iff_lt (less.trans small) small).mpr less

theorem append (h : Precedes x y) (r s : List UInt8) : Precedes (x ++ r) (y ++ s) := by
  intro more rest
  rw [List.append_assoc, List.append_assoc]
  exact h (r ++ more) (s ++ rest)

theorem append_left (shared : List UInt8) (h : Precedes x y) :
    Precedes (shared ++ x) (shared ++ y) := by
  intro more rest
  rw [List.append_assoc, List.append_assoc]
  exact List.append_left_lt (h more rest)

end Precedes

/-- How UTF-8 writes a character: its first byte is one of `count` from `base` on, and `further` bytes
follow. -/
structure ByteForm where
  base : Nat
  count : Nat
  further : Nat

namespace ByteForm

/-- The form of the character with a code. -/
def ofCode (code : Nat) : ByteForm :=
  if code ≤ 0x7f then ⟨0, 128, 0⟩
  else if code ≤ 0x7ff then ⟨192, 32, 1⟩
  else if code ≤ 0xffff then ⟨224, 16, 2⟩
  else ⟨240, 8, 3⟩

theorem base_add_count_le (code : Nat) : (ofCode code).base + (ofCode code).count ≤ 256 := by
  rw [ofCode]
  split_ifs <;> decide

theorem code_lt {code : Nat} (valid : code ≤ 0x10ffff) :
    code / 64 ^ (ofCode code).further < (ofCode code).count := by
  rw [ofCode]
  split_ifs <;> dsimp only <;> omega

theorem eq_or_le {v w : Nat} (less : v < w) :
    ofCode v = ofCode w ∨ (ofCode v).base + (ofCode v).count ≤ (ofCode w).base := by
  rw [ofCode, ofCode]
  split_ifs <;> first | exact .inl rfl | exact .inr (by decide) | omega

/-- A code written with `n` bytes of six bits after the first. -/
def spread (form : ByteForm) : Nat → Nat → List UInt8
  | 0, code => [.ofNat (code % form.count + form.base)]
  | n + 1, code => form.spread n (code / 64) ++ [.ofNat (code % 64 + 128)]

variable {form : ByteForm} {n v w : Nat}

theorem exists_spread_eq (form : ByteForm) (n code : Nat) :
    ∃ rest, form.spread n code = .ofNat (code / 64 ^ n % form.count + form.base) :: rest := by
  induction n generalizing code with
  | zero => exact ⟨[], by rw [spread, Nat.pow_zero, Nat.div_one]⟩
  | succ n ih =>
      obtain ⟨rest, first⟩ := ih (code / 64)
      rw [spread, first, Nat.div_div_eq_div_mul, ← Nat.pow_succ']
      exact ⟨_, List.cons_append⟩

theorem precedes_spread (fits : form.base + form.count ≤ 256) (less : v < w)
    (small : w / 64 ^ n < form.count) : Precedes (form.spread n v) (form.spread n w) := by
  induction n generalizing v w with
  | zero =>
      rw [Nat.pow_zero, Nat.div_one] at small
      rw [spread, spread, Nat.mod_eq_of_lt small, Nat.mod_eq_of_lt (less.trans small)]
      exact .of_first (by omega) (by omega)
  | succ n ih =>
      rw [Nat.pow_succ', ← Nat.div_div_eq_div_mul] at small
      -- The last byte decides only between codes that agree in all bits before its own.
      rcases Nat.lt_or_eq_of_le (Nat.div_le_div_right (c := 64) less.le) with above | same
      · exact (ih above small).append _ _
      · rw [spread, spread, same]
        exact .append_left _ (.of_first (by omega) (by omega))

end ByteForm

open ByteForm

theorem utf8EncodeChar_eq_spread (c : Char) :
    String.utf8EncodeChar c = (ofCode c.toNat).spread (ofCode c.toNat).further c.toNat := by
  simp only [String.utf8EncodeChar, ofCode, Char.toNat_val]
  split_ifs with one two three
  · simp only [spread, Nat.mod_eq_of_lt (Nat.lt_succ_of_le one), Nat.add_zero]
  · rfl
  · simp only [spread, Nat.div_div_eq_div_mul, List.cons_append, List.nil_append]
  · simp only [spread, Nat.div_div_eq_div_mul, List.cons_append, List.nil_append]

theorem toNat_le (c : Char) : c.toNat ≤ 0x10ffff := by
  rcases c.valid with low | ⟨-, high⟩
  · exact Nat.le_trans (Nat.le_of_lt low) (by decide)
  · exact Nat.le_of_lt_succ high

/-- The bytes of a lesser character come first, whatever follows them. -/
theorem precedes_utf8EncodeChar {c d : Char} (less : c < d) :
    Precedes (String.utf8EncodeChar c) (String.utf8EncodeChar d) := by
  have codes : c.toNat < d.toNat := less
  have small := code_lt (toNat_le d)
  rw [utf8EncodeChar_eq_spread, utf8EncodeChar_eq_spread]
  rcases eq_or_le codes with same | apart
  · rw [same]
    exact precedes_spread (base_add_count_le _) codes small
  · -- Characters of different forms differ in the first byte.
    obtain ⟨x, first⟩ := (ofCode c.toNat).exists_spread_eq (ofCode c.toNat).further c.toNat
    obtain ⟨y, second⟩ := (ofCode d.toNat).exists_spread_eq (ofCode d.toNat).further d.toNat
    rw [first, second, Nat.mod_eq_of_lt (code_lt (toNat_le c)), Nat.mod_eq_of_lt small]
    refine .of_first ?_ ?_
    · calc
        _ < (ofCode c.toNat).count + (ofCode c.toNat).base :=
          Nat.add_lt_add_right (code_lt (toNat_le c)) _
        _ ≤ (ofCode d.toNat).base := Nat.add_comm _ _ ▸ apart
        _ ≤ _ := Nat.le_add_left _ _
    · calc
        _ < (ofCode d.toNat).count + (ofCode d.toNat).base := Nat.add_lt_add_right small _
        _ ≤ 256 := Nat.add_comm _ _ ▸ base_add_count_le d.toNat

theorem bytes_eq (text : String) : bytes text = text.toList.flatMap String.utf8EncodeChar := by
  rw [bytes, String.toUTF8_eq_toByteArray, ← String.utf8Encode_toList, List.utf8Encode,
    List.toList_data_toByteArray]

theorem flatMap_utf8EncodeChar_lt {x y : List Char} (less : x < y) :
    x.flatMap String.utf8EncodeChar < y.flatMap String.utf8EncodeChar := by
  induction x generalizing y with
  | nil =>
      cases y with
      | nil => exact absurd less (List.lt_irrefl [])
      | cons d y =>
          obtain ⟨b, rest, first⟩ := List.exists_cons_of_ne_nil (String.utf8EncodeChar_ne_nil (c := d))
          rw [List.flatMap_nil, List.flatMap_cons, first]
          exact List.nil_lt_cons b _
  | cons c x ih =>
      cases y with
      | nil => exact absurd less (List.not_lt_nil _)
      | cons d y =>
          rw [List.flatMap_cons, List.flatMap_cons]
          rcases List.cons_lt_cons_iff.mp less with first | ⟨rfl, later⟩
          · exact precedes_utf8EncodeChar first _ _
          · exact List.append_left_lt (ih later)

theorem bytes_lt_bytes {x y : String} (less : x < y) : bytes x < bytes y := by
  rw [bytes_eq, bytes_eq]
  exact flatMap_utf8EncodeChar_lt (String.lt_iff_toList_lt.mp less)

/-- Texts stand in the order of their bytes. -/
theorem bytes_lt_iff {x y : String} : bytes x < bytes y ↔ x < y := by
  refine ⟨fun less => ?_, bytes_lt_bytes⟩
  rcases lt_trichotomy x y with below | rfl | above
  · exact below
  · exact absurd less (List.lt_irrefl _)
  · exact absurd less (List.lt_asymm (bytes_lt_bytes above))

/-- Texts begin as their bytes do. -/
theorem bytes_isPrefix_iff {x y : String} : bytes x <+: bytes y ↔ x.toList <+: y.toList := by
  rw [bytes_eq, bytes_eq]
  constructor
  · rintro ⟨rest, whole⟩
    refine List.isPrefix_of_utf8Encode_append_eq_utf8Encode rest.toByteArray ?_
    rw [List.utf8Encode, List.utf8Encode, ← List.toByteArray_append, whole]
  · rintro ⟨rest, whole⟩
    rw [← whole, List.flatMap_append]
    exact List.prefix_append _ _

end CharacterRules.Text
