import CharacterRules.Json.Selection
import CharacterRules.Proofs.Attributes.Lookup
import CharacterRules.Proofs.Unicode.Case
import Mathlib.Data.Option.Basic

/-!
Reading back what is written. Strings are always read back, and a selection is read back if its numbers
are: which number a numeral stands for depends on nothing behind it.
-/

namespace CharacterRules

namespace Json

theorem hexValue?_hexDigit {n : Nat} (h : n < 16) : hexValue? (hexDigit n) = some n := by
  revert n
  decide

theorem readUnit?_control {n : Nat} (h : n < 32) (rest : List Char) :
    readUnit? ('0' :: '0' :: hexDigit (n / 16) :: hexDigit (n % 16) :: rest) = some (n, rest) := by
  have high := hexValue?_hexDigit (n := n / 16) (by omega)
  have low := hexValue?_hexDigit (n := n % 16) (by omega)
  have zero : hexValue? '0' = some 0 := rfl
  simp only [readUnit?, high, low, zero, Option.bind_eq_bind, Option.bind_some]
  simp only [Option.pure_def, Option.some.injEq, Prod.mk.injEq, and_true]
  omega

theorem readEscape?_control {c : Char} (h : c.toNat < 32) (rest : List Char) :
    readEscape? ('u' :: '0' :: '0' :: hexDigit (c.toNat / 16) :: hexDigit (c.toNat % 16) :: rest) =
      some (c, rest) := by
  show readEscapedUnit? _ = _
  have small : c.toNat < 0xD800 := by omega
  simp [readEscapedUnit?, readUnit?_control h, small]

/-- A character of a string is read back from its written form. -/
theorem readString?_escapeChar (fuel : Nat) (read : List Char) (c : Char) (rest : List Char) :
    readString? (fuel + 1) read (escapeChar c ++ rest) = readString? fuel (c :: read) rest := by
  have escaped : ∀ {text : List Char}, readEscape? text = some (c, rest) →
      readString? (fuel + 1) read ('\\' :: text) = readString? fuel (c :: read) rest := by
    intro text found
    rw [readString?, if_neg (by decide), if_pos rfl, found]
  fun_cases escapeChar c with
  | case1 | case2 | case3 | case4 | case5 =>
      rename_i same
      subst same
      exact escaped rfl
  | case6 _ _ _ _ _ code =>
      obtain rfl : c = '\x08' := Char.toNat_inj.mp code
      exact escaped rfl
  | case7 _ _ _ _ _ _ code =>
      obtain rfl : c = '\x0c' := Char.toNat_inj.mp code
      exact escaped rfl
  | case8 _ _ _ _ _ _ _ control => exact escaped (readEscape?_control control rest)
  | case9 quote backslash _ _ _ _ _ shown =>
      show readString? (fuel + 1) read (c :: rest) = _
      rw [readString?, if_neg quote, if_neg backslash, if_neg shown]

theorem length_le_escapeChar (text : List Char) : text.length ≤ (text.flatMap escapeChar).length := by
  have nonempty : ∀ c, 1 ≤ (escapeChar c).length := by
    intro c
    fun_cases escapeChar c <;> simp
  induction text with
  | nil => exact Nat.le_refl 0
  | cons c rest ih =>
      rw [List.flatMap_cons, List.length_append, List.length_cons]
      have own := nonempty c
      omega

theorem readString?_flatMap {fuel : Nat} {text : List Char} (lasts : text.length < fuel)
    (read rest : List Char) :
    readString? fuel read (text.flatMap escapeChar ++ '"' :: rest) =
      some (String.ofList (read.reverse ++ text), rest) := by
  induction text generalizing fuel read with
  | nil =>
      obtain ⟨fuel, rfl⟩ := Nat.exists_eq_succ_of_ne_zero (Nat.ne_zero_of_lt lasts)
      rw [List.flatMap_nil, List.nil_append, readString?, if_pos rfl, List.append_nil]
  | cons c text ih =>
      obtain ⟨fuel, rfl⟩ := Nat.exists_eq_succ_of_ne_zero (Nat.ne_zero_of_lt lasts)
      rw [List.flatMap_cons, List.append_assoc, readString?_escapeChar,
        ih (Nat.lt_of_succ_lt_succ lasts), List.reverse_cons, List.append_assoc]
      rfl

/-- A string is read back from its written form. -/
theorem readString?_writeString (s : String) (rest : List Char) :
    ∃ text, (writeString s).toList ++ rest = '"' :: text ∧
      readString? (text.length + 1) [] text = some (s, rest) := by
  refine ⟨s.toList.flatMap escapeChar ++ '"' :: rest, ?_, ?_⟩
  · simp [writeString]
  · have lasts := length_le_escapeChar s.toList
    rw [readString?_flatMap (by rw [List.length_append]; omega), List.reverse_nil, List.nil_append,
      String.ofList_toList]

/-- Whether a text does not continue a numeral in front of it. -/
def endsNumeral : List Char → Bool
  | [] => true
  | c :: _ => !c.isDigit && c != '.' && c != 'e' && c != 'E'

theorem isDigit_iff {c : Char} : c.isDigit = true ↔ '0' ≤ c ∧ c ≤ '9' := by
  rw [Char.isDigit, Bool.and_eq_true, decide_eq_true_eq, decide_eq_true_eq]
  exact Iff.rfl

theorem takeWhile_append_of_head {p : Char → Bool} {rest : List Char}
    (stop : ∀ c ∈ rest.head?, p c = false) (text : List Char) :
    (text ++ rest).takeWhile p = text.takeWhile p ∧
      (text ++ rest).dropWhile p = text.dropWhile p ++ rest := by
  induction text with
  | nil =>
      cases rest with
      | nil => exact ⟨rfl, rfl⟩
      | cons c more =>
          have first : ¬p c = true := Bool.eq_false_iff.mp (stop c rfl)
          exact ⟨List.takeWhile_cons_of_neg first, List.dropWhile_cons_of_neg first⟩
  | cons c text ih =>
      by_cases holds : p c = true
      · simp only [List.cons_append, List.takeWhile_cons_of_pos holds,
          List.dropWhile_cons_of_pos holds, ih, and_self]
      · simp only [List.cons_append, List.takeWhile_cons_of_neg holds,
          List.dropWhile_cons_of_neg holds, and_self]

section

variable {rest : List Char} (stop : endsNumeral rest = true)

include stop

theorem head_of_endsNumeral {c : Char} {more : List Char} (begins : rest = c :: more) :
    c.isDigit = false ∧ c ≠ '.' ∧ c ≠ 'e' ∧ c ≠ 'E' := by
  subst begins
  simpa [endsNumeral, and_assoc] using stop

theorem readDigits_append (significand : Nat) (full : Bool) (text : List Char) :
    readDigits significand full (text ++ rest) =
      { readDigits significand full text with
        rest := (readDigits significand full text).rest ++ rest } := by
  induction text generalizing significand full with
  | nil =>
      cases rest with
      | nil => rfl
      | cons c more =>
          have first := (head_of_endsNumeral stop rfl).1
          have other : ¬('0' ≤ c ∧ c ≤ '9') := isDigit_iff.not.mp (Bool.eq_false_iff.mp first)
          simp only [List.nil_append, readDigits, if_neg other]
  | cons c text ih =>
      simp only [List.cons_append, readDigits]
      split
      · split
        · rw [ih]
        · rw [ih]
      · rfl

theorem readExponent?_append {text more : List Char} {exponent : Int} {present : Bool}
    (h : readExponent? text = some (exponent, present, more)) :
    readExponent? (text ++ rest) = some (exponent, present, more ++ rest) := by
  have digits : ∀ c ∈ rest.head?, c.isDigit = false := by
    intro c first
    obtain ⟨behind, begins⟩ := List.head?_eq_some_iff.mp first
    exact (head_of_endsNumeral stop begins).1
  -- behind the mark and the sign, the three cases do the same
  have read : ∀ {negative : Bool} {text : List Char},
      (if (text.takeWhile Char.isDigit).isEmpty then none
        else some (Number.signed negative ((text.takeWhile Char.isDigit).foldl
          (fun value c => value * 10 + (c.toNat - '0'.toNat)) 0), true,
          text.dropWhile Char.isDigit)) = some (exponent, present, more) →
      (if ((text ++ rest).takeWhile Char.isDigit).isEmpty then none
        else some (Number.signed negative (((text ++ rest).takeWhile Char.isDigit).foldl
          (fun value c => value * 10 + (c.toNat - '0'.toNat)) 0), true,
          (text ++ rest).dropWhile Char.isDigit)) = some (exponent, present, more ++ rest) := by
    intro negative text found
    obtain ⟨taken, left⟩ := takeWhile_append_of_head digits text
    rw [taken, left]
    split at found
    · cases found
    · rename_i nonempty
      cases found
      rw [if_neg nonempty]
  cases text with
  | nil =>
      cases h
      cases rest with
      | nil => rfl
      | cons c behind =>
          obtain ⟨-, -, small, large⟩ := head_of_endsNumeral stop rfl
          rw [List.nil_append, readExponent?.eq_def]
          exact if_neg (not_or.mpr ⟨small, large⟩)
  | cons c text =>
      rw [List.cons_append, readExponent?.eq_def]
      rw [readExponent?.eq_def] at h
      dsimp only at h ⊢
      split at h
      · rename_i mark
        rw [if_pos mark]
        cases text with
        | nil => cases h
        | cons d text =>
            split at h
            · rename_i same
              cases same
              exact read h
            · rename_i same
              cases same
              exact read h
            -- what is appended does not bring a sign in front of the digits
            · rename_i minus plus
              split
              · rename_i same
                obtain ⟨rfl, -⟩ := List.cons.inj same
                exact (minus text rfl).elim
              · rename_i same
                obtain ⟨rfl, -⟩ := List.cons.inj same
                exact (plus text rfl).elim
              · exact read h
      · rename_i other
        rw [if_neg other]
        cases h
        rfl

theorem readUnsigned?_append {text more : List Char} {n : Number}
    (h : readUnsigned? text = some (n, more)) :
    readUnsigned? (text ++ rest) = some (n, more ++ rest) := by
  have appended := readDigits_append stop 0 false text
  have empty : text = [] → (readDigits 0 false text).kept + (readDigits 0 false text).dropped = 0 := by
    rintro rfl
    rfl
  rw [readUnsigned?.eq_def] at h ⊢
  generalize readDigits 0 false text = whole at h appended empty
  obtain ⟨_, digit, h⟩ := Option.bind_eq_some_iff.mp h
  obtain ⟨_, leading, h⟩ := Option.bind_eq_some_iff.mp h
  -- there is a digit, so the first character is one of the text
  have nonempty : text ≠ [] := by
    intro none
    rw [empty none] at digit
    cases digit
  have head : (text ++ rest).head? = text.head? := by
    obtain ⟨c, behind, rfl⟩ := List.exists_cons_of_ne_nil nonempty
    rfl
  rw [appended, head]
  refine Option.bind_eq_some_iff.mpr ⟨_, digit, Option.bind_eq_some_iff.mpr ⟨_, leading, ?_⟩⟩
  dsimp only
  split at h
  · rename_i behind point
    rw [point, List.cons_append]
    obtain ⟨_, fraction, h⟩ := Option.bind_eq_some_iff.mp h
    obtain ⟨⟨exponent, present, left⟩, found, h⟩ := Option.bind_eq_some_iff.mp h
    obtain ⟨value, scaled, same⟩ := Option.bind_eq_some_iff.mp h
    cases same
    split
    · rename_i other same
      rw [← (List.cons.inj same).2, readDigits_append stop]
      refine Option.bind_eq_some_iff.mpr ⟨_, fraction, ?_⟩
      refine Option.bind_eq_some_iff.mpr ⟨_, readExponent?_append stop found, ?_⟩
      exact Option.bind_eq_some_iff.mpr ⟨_, scaled, rfl⟩
    · rename_i pointless
      exact absurd rfl (pointless (behind ++ rest))
  -- a point would have to come from `rest`, which begins with none
  · rename_i pointless
    split
    · rename_i behind point
      cases left : whole.rest with
      | nil =>
          rw [left, List.nil_append] at point
          exact ((head_of_endsNumeral stop point).2.1 rfl).elim
      | cons c more =>
          rw [left] at point
          obtain ⟨rfl, -⟩ := List.cons.inj point
          exact (pointless more left).elim
    · obtain ⟨⟨exponent, present, left⟩, found, h⟩ := Option.bind_eq_some_iff.mp h
      refine Option.bind_eq_some_iff.mpr ⟨_, readExponent?_append stop found, ?_⟩
      dsimp only at h ⊢
      split at h
      · rename_i plain
        cases h
        rw [if_pos plain]
        rfl
      · rename_i scientific
        obtain ⟨value, scaled, same⟩ := Option.bind_eq_some_iff.mp h
        cases same
        rw [if_neg scientific, scaled]
        rfl

theorem readNumber?_append {text more : List Char} {n : Number}
    (h : readNumber? text = some (n, more)) : readNumber? (text ++ rest) = some (n, more ++ rest) := by
  cases text with
  | nil => cases h
  | cons c text =>
      by_cases minus : c = '-'
      · subst minus
        obtain ⟨⟨m, behind⟩, found, same⟩ := Option.map_eq_some_iff.mp h
        cases same
        exact Option.map_eq_some_iff.mpr ⟨_, readUnsigned?_append stop found, rfl⟩
      · rw [readNumber?] at h
        · rw [List.cons_append, readNumber?]
          · exact readUnsigned?_append stop h
          · simpa using minus
        · simpa using minus

end

/-- Whether a number is read back from its written form. -/
def ReadsBack (n : Number) : Prop := readNumber? (writeNumber n).toList = some (n, [])

instance (n : Number) : Decidable (ReadsBack n) := inferInstanceAs (Decidable (_ = _))

/-- The document of a value. -/
def ofValue : Value → Json
  | .number n => .number n
  | .text s => .string s

theorem value?_ofValue (v : Value) : (ofValue v).value? = some v := by
  cases v <;> rfl

theorem head_of_readNumber? {text : List Char} {n : Number} (h : readNumber? text = some (n, [])) :
    ∃ c more, text = c :: more ∧ (c = '-' ∨ c.isDigit = true) := by
  cases text with
  | nil => cases h
  | cons c more =>
      refine ⟨c, more, rfl, ?_⟩
      by_cases minus : c = '-'
      · exact .inl minus
      · refine .inr (Classical.byContradiction fun other => ?_)
        rw [readNumber?.eq_2 _ (by simpa using minus), readUnsigned?.eq_def] at h
        obtain ⟨_, digit, -⟩ := Option.bind_eq_some_iff.mp h
        rw [readDigits, if_neg (isDigit_iff.not.mp other)] at digit
        cases digit

theorem readValue?_congr {text text' : List Char} (h : skipSpace text = skipSpace text') (fuel : Nat) :
    readValue? fuel text = readValue? fuel text' := by
  cases fuel with
  | zero => rw [readValue?, readValue?]
  | succ fuel => rw [readValue?, readValue?, h]

theorem readMembers?_congr {text text' : List Char} (h : skipSpace text = skipSpace text')
    (fuel : Nat) : readMembers? fuel text = readMembers? fuel text' := by
  cases fuel with
  | zero => rw [readMembers?, readMembers?]
  | succ fuel => rw [readMembers?, readMembers?, h]

theorem skipSpace_of_visible {c : Char} {more : List Char}
    (visible : (c == ' ' || c == '\t' || c == '\n' || c == '\r') = false) :
    skipSpace (c :: more) = c :: more := by
  rw [skipSpace, List.dropWhile_cons_of_neg (by rw [visible]; exact Bool.false_ne_true)]

theorem readValue?_number {c : Char} (first : c = '-' ∨ c.isDigit = true) (fuel : Nat)
    (more : List Char) :
    readValue? (fuel + 1) (c :: more) = (readNumber? (c :: more)).map fun (n, rest) => (number n, rest) := by
  have plain : (c == ' ' || c == '\t' || c == '\n' || c == '\r') = false ∧
      c ∉ ['n', 't', 'f', '"', '[', '\x7b'] := by
    rcases first with rfl | digit
    · decide
    · exact Unicode.of_isDigit (P := fun c => (c == ' ' || c == '\t' || c == '\n' || c == '\r') = false ∧
        c ∉ ['n', 't', 'f', '"', '[', '\x7b']) (by decide) digit
  rw [readValue?, skipSpace_of_visible plain.1]
  split
  case h_7 => rfl
  all_goals
    rename_i same
    obtain ⟨rfl, -⟩ := List.cons.inj same
    exact absurd plain.2 (by decide)

/-- A value is read back from its written form. -/
theorem readValue?_writeValue {v : Value} (numbers : ∀ n, v = .number n → ReadsBack n) (fuel : Nat)
    {rest : List Char} (stop : endsNumeral rest = true) :
    readValue? (fuel + 1) ((writeValue v).toList ++ rest) = some (ofValue v, rest) := by
  cases v with
  | number n =>
      have reads : readNumber? (writeNumber n).toList = some (n, []) := numbers n rfl
      obtain ⟨c, more, text, first⟩ := head_of_readNumber? reads
      have number := readNumber?_append stop reads
      rw [text] at number
      rw [writeValue, text, List.cons_append, readValue?_number first, ← List.cons_append, number]
      rfl
  | text s =>
      obtain ⟨text, written, reads⟩ := readString?_writeString s rest
      rw [writeValue, written, readValue?, skipSpace_of_visible rfl]
      show (readString? (text.length + 1) [] text).map (fun x => (string x.1, x.2)) = _
      rw [reads]
      rfl

/-- Behind a member that is read, the object ends or goes on. -/
theorem readMembers?_eq {key : String} {v : Value} (numbers : ∀ n, v = .number n → ReadsBack n)
    (fuel : Nat) {rest : List Char} (stop : endsNumeral rest = true) :
    readMembers? (fuel + 2) ((writeString key ++ ": " ++ writeValue v).toList ++ rest) =
      match skipSpace rest with
      | '\x7d' :: rest => some ([(key, ofValue v)], rest)
      | ',' :: rest =>
        (readMembers? (fuel + 1) rest).bind fun x => some ((key, ofValue v) :: x.1, x.2)
      | _ => none := by
  obtain ⟨text, written, reads⟩ :=
    readString?_writeString key (": ".toList ++ (writeValue v).toList ++ rest)
  have value : readValue? (fuel + 1) (' ' :: ((writeValue v).toList ++ rest)) =
      some (ofValue v, rest) := by
    have spaced : skipSpace (' ' :: ((writeValue v).toList ++ rest)) =
        skipSpace ((writeValue v).toList ++ rest) := rfl
    rw [readValue?_congr spaced, readValue?_writeValue numbers fuel stop]
  rw [String.toList_append, String.toList_append, List.append_assoc, List.append_assoc,
    ← List.append_assoc ": ".toList, written, readMembers?, skipSpace_of_visible rfl]
  show (readString? (text.length + 1) [] text).bind _ = _
  rw [reads, Option.bind_some]
  show (readValue? (fuel + 1) (' ' :: ((writeValue v).toList ++ rest))).bind _ = _
  rw [value, Option.bind_some]
  rfl

/-- The written form of a member of an object. -/
def memberText (member : String × Value) : String :=
  writeString member.1 ++ ": " ++ writeValue member.2

theorem readMembers?_join {members : List (String × Value)} (nonempty : members ≠ [])
    (numbers : ∀ key n, (key, .number n) ∈ members → ReadsBack n) {fuel : Nat}
    (lasts : members.length < fuel) (rest : List Char) :
    readMembers? fuel
        ((Text.join ",\n  " (members.map memberText)).toList ++ '\n' :: '\x7d' :: rest) =
      some (members.map fun member => (member.1, ofValue member.2), rest) := by
  induction members generalizing fuel with
  | nil => exact absurd rfl nonempty
  | cons member more ih =>
      obtain ⟨key, v⟩ := member
      obtain ⟨fuel, rfl⟩ : ∃ fuel', fuel = fuel' + 2 := ⟨fuel - 2, by simp at lasts; omega⟩
      have own : ∀ n, v = .number n → ReadsBack n := fun n same => numbers key n (same ▸ .head _)
      cases more with
      | nil => exact readMembers?_eq own fuel rfl
      | cons next more =>
          obtain ⟨text, written⟩ : ∃ text, text =
              (Text.join ",\n  " ((next :: more).map memberText)).toList ++ '\n' :: '\x7d' :: rest :=
            ⟨_, rfl⟩
          -- the line break behind a comma is skipped, and then the same form begins again
          have split : (Text.join ",\n  " (((key, v) :: next :: more).map memberText)).toList ++
              '\n' :: '\x7d' :: rest =
              (writeString key ++ ": " ++ writeValue v).toList ++ (",\n  ".toList ++ text) := by
            rw [written, List.map_cons, List.map_cons, Text.join, String.toList_append,
              String.toList_append, List.append_assoc, List.append_assoc]
            · rfl
            · exact List.cons_ne_nil _ _
          have spaced : skipSpace ("\n  ".toList ++ text) = skipSpace text := rfl
          have others : readMembers? (fuel + 1) ("\n  ".toList ++ text) =
              some ((next :: more).map fun member => (member.1, ofValue member.2), rest) := by
            rw [readMembers?_congr spaced, written]
            exact ih (List.cons_ne_nil next more) (fun key n found => numbers key n (.tail _ found))
              (Nat.lt_of_succ_lt_succ lasts)
          rw [split, readMembers?_eq own fuel rfl]
          exact Option.bind_eq_some_iff.mpr ⟨_, others, rfl⟩

theorem foldlM_insert {members : List (String × Value)} (s : Selection) :
    (members.map fun member => (member.1, ofValue member.2)).foldlM
        (fun (s : Selection) (key, document) => (value? document).map fun v => s.insert key v) s =
      some (members.foldl (fun s member => s.insert member.1 member.2) s) := by
  induction members generalizing s with
  | nil => rfl
  | cons member more ih =>
      rw [List.map_cons, List.foldlM_cons]
      show ((value? (ofValue member.2)).map fun v => s.insert member.1 v).bind _ = _
      rw [value?_ofValue]
      exact ih _

theorem length_le_join (members : List (String × Value)) :
    members.length ≤ (Text.join ",\n  " (members.map memberText)).toList.length := by
  have nonempty : ∀ member, 1 ≤ (memberText member).toList.length := by
    intro member
    simp [memberText, writeString]
  induction members with
  | nil => exact Nat.zero_le _
  | cons member more ih =>
      have own := nonempty member
      cases more with
      | nil => exact own
      | cons next more =>
          rw [List.map_cons, List.map_cons, Text.join]
          · rw [← List.map_cons, String.toList_append, String.toList_append, List.length_append,
              List.length_append, List.length_cons]
            omega
          · exact List.cons_ne_nil _ _

theorem join_begins {members : List (String × Value)} (nonempty : members ≠ []) (rest : List Char) :
    ∃ text, (Text.join ",\n  " (members.map memberText)).toList ++ rest = '"' :: text := by
  obtain ⟨member, more, rfl⟩ := List.exists_cons_of_ne_nil nonempty
  have own : ∃ text, (memberText member).toList = '"' :: text := by
    simp only [memberText, writeString, String.toList_append, String.toList_ofList, List.cons_append]
    exact ⟨_, rfl⟩
  obtain ⟨text, begins⟩ := own
  cases more with
  | nil => exact ⟨text ++ rest, congrArg (· ++ rest) begins⟩
  | cons next more =>
      simp only [List.map_cons, Text.join, String.toList_append, begins, List.cons_append]
      exact ⟨_, rfl⟩

theorem readValue?_brace (fuel : Nat) (text : List Char) : readValue? (fuel + 1) ('\x7b' :: text) =
    match skipSpace text with
    | '\x7d' :: rest => some (object [], rest)
    | rest => (readMembers? fuel rest).map fun x => (object x.1, x.2) := by
  rw [readValue?, skipSpace_of_visible rfl]
  rfl

theorem readValue?_object {members : List (String × Value)} (nonempty : members ≠ [])
    (numbers : ∀ key n, (key, .number n) ∈ members → ReadsBack n) {fuel : Nat}
    (lasts : members.length < fuel) (rest : List Char) :
    readValue? (fuel + 1) ("\x7b\n  ".toList ++
        ((Text.join ",\n  " (members.map memberText)).toList ++ '\n' :: '\x7d' :: rest)) =
      some (object (members.map fun member => (member.1, ofValue member.2)), rest) := by
  have reads := readMembers?_join nonempty numbers lasts rest
  obtain ⟨text, begins⟩ := join_begins nonempty ('\n' :: '\x7d' :: rest)
  rw [begins] at reads ⊢
  have spaced : skipSpace ('\n' :: ' ' :: ' ' :: '"' :: text) = '"' :: text := rfl
  show readValue? (fuel + 1) ('\x7b' :: '\n' :: ' ' :: ' ' :: '"' :: text) = _
  rw [readValue?_brace, spaced]
  exact congrArg (Option.map _) reads

end Json

namespace Attributes

theorem toList_foldl_insert (s : Selection) :
    (s.toList.foldl (fun (t : Selection) member => t.insert member.1 member.2) {}).toList = s.toList := by
  refine toList_eq_of_getElem?_eq fun key => ?_
  have same : (Std.TreeMap.ofList s.toList compare).Equiv
      (s.toList.foldl (fun (t : Selection) member => t.insert member.1 member.2) {}) :=
    Std.TreeMap.ofList_equiv_foldl
  rw [← same.getElem?_eq]
  cases found : s[key]? with
  | some v =>
      exact Std.TreeMap.getElem?_ofList_of_mem Std.ReflCmp.compare_self s.distinct_keys_toList
        (Std.TreeMap.mem_toList_iff_getElem?_eq_some.mpr found)
  | none =>
      refine Std.TreeMap.getElem?_ofList_of_contains_eq_false (Bool.eq_false_iff.mpr fun listed => ?_)
      obtain ⟨⟨other, v⟩, member, rfl⟩ := List.mem_map.mp (List.contains_iff_mem.mp listed)
      rw [Std.TreeMap.mem_toList_iff_getElem?_eq_some.mp member] at found
      cases found

/-- A selection is read back from its written form if its numbers are. -/
theorem exists_ofJson?_toJsonLines {s : Selection}
    (numbers : ∀ (key : String) (n : Number), s[key]? = some (.number n) → Json.ReadsBack n) :
    ∃ loaded, ofJson? (s.toJsonLines ++ "\n") = some loaded ∧ loaded.toList = s.toList := by
  by_cases nonempty : s.toList = []
  · have text : s.toJsonLines = "\x7b\x7d" := by
      rw [toJsonLines, jsonMembers, nonempty]
      rfl
    exact ⟨{}, by rw [text]; rfl, by rw [nonempty]; rfl⟩
  · refine ⟨_, ?_, s.toList_foldl_insert⟩
    have text : (s.toJsonLines ++ "\n").toList = "\x7b\n  ".toList ++
        ((Text.join ",\n  " (s.toList.map Json.memberText)).toList ++ '\n' :: '\x7d' :: ['\n']) := by
      have members : s.jsonMembers ": " = s.toList.map Json.memberText := rfl
      rw [toJsonLines, members]
      split
      · rename_i none
        exact absurd (List.map_eq_nil_iff.mp none) nonempty
      · simp only [String.toList_append, List.append_assoc]
        rfl
    have bound := Json.length_le_join s.toList
    have lasts : s.toList.length < 2 * (s.toJsonLines ++ "\n").toList.length + 1 := by
      rw [text, List.length_append, List.length_append]
      omega
    have document := Json.readValue?_object nonempty
      (fun key n member => numbers key n (Std.TreeMap.mem_toList_iff_getElem?_eq_some.mp member))
      lasts ['\n']
    rw [← text] at document
    rw [ofJson?, Json.ofText?]
    simp only [document, Option.bind_eq_bind, Option.bind_some]
    exact Json.foldlM_insert {}

end Attributes
end CharacterRules
