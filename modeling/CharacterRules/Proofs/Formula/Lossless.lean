import CharacterRules.Proofs.Formula.Literal
import CharacterRules.Proofs.Text.Bytes

/-!
The lexer loses nothing. What a lexeme covers depends on no more text than it covers, so that this text
alone is the same lexeme again. The lexemes of a text stand one behind the other, and only blanks stand
outside them.
-/

namespace CharacterRules.Formula

theorem digitsLength_le (text : List Char) : digitsLength text ≤ text.length :=
  (List.takeWhile_prefix _).length_le

theorem digitsLength_take_of_le {text : List Char} {n : Nat} (h : digitsLength text ≤ n) :
    digitsLength (text.take n) = digitsLength text := by
  induction text generalizing n with
  | nil => rw [List.take_nil]
  | cons c rest ih =>
      cases n with
      | zero => exact (Nat.le_zero.mp h).symm
      | succ n =>
          rw [List.take_succ_cons]
          by_cases digit : c.isDigit = true
          · simp only [digitsLength, List.takeWhile_cons_of_pos digit, List.length_cons] at h ih ⊢
            rw [ih (Nat.le_of_succ_le_succ h)]
          · simp only [digitsLength, List.takeWhile_cons_of_neg digit]

theorem fractionLength_take (text : List Char) :
    fractionLength (text.take (fractionLength text)) = fractionLength text := by
  fun_cases fractionLength text with
  | case1 rest none => rfl
  | case2 rest some =>
      rw [List.take_succ_cons, fractionLength, digitsLength_take_of_le (Nat.le_refl _), if_neg some]
  | case3 => rfl

theorem fractionLength_le (text : List Char) : fractionLength text ≤ text.length := by
  fun_cases fractionLength text with
  | case1 rest none => exact Nat.zero_le _
  | case2 rest some => exact Nat.succ_le_succ (digitsLength_le rest)
  | case3 => exact Nat.zero_le _

theorem quotedLength_take (quote : Char) (text : List Char) :
    quotedLength quote (text.take (quotedLength quote text).1) = quotedLength quote text ∧
      (quotedLength quote text).1 ≤ text.length := by
  fun_induction quotedLength quote text with
  | case1 => exact ⟨rfl, Nat.le_refl 0⟩
  | case2 c closes => exact ⟨by simp [quotedLength, closes], Nat.le_refl 1⟩
  | case3 c opens escapes => exact ⟨rfl, Nat.zero_le _⟩
  | case4 c opens plain => exact ⟨by simp [quotedLength, opens, plain], Nat.le_refl 1⟩
  | case5 c d rest closes => exact ⟨by simp [quotedLength, closes], Nat.succ_le_succ (Nat.zero_le _)⟩
  | case6 c d rest opens escapes ends => exact ⟨rfl, Nat.zero_le _⟩
  | case7 c d rest opens escapes goes length closed taken ih =>
      rw [taken] at ih
      exact ⟨by simp [quotedLength, opens, escapes, goes, ih.1], Nat.add_le_add_right ih.2 2⟩
  | case8 c d rest opens plain length closed taken ih =>
      rw [taken] at ih
      refine ⟨?_, Nat.succ_le_succ ih.2⟩
      cases length with
      | zero =>
          obtain rfl : closed = false := (congrArg Prod.snd ih.1).symm
          simp [quotedLength, opens, plain]
      | succ n =>
          have later : quotedLength quote (d :: rest.take n) = (n + 1, closed) := ih.1
          simp [quotedLength, opens, plain, later]

theorem symbolAt?_take {c : Char} {rest : List Char} {s : Symbol} {length : Nat}
    (h : symbolAt? c rest = some (s, length)) :
    symbolAt? c (rest.take length) = some (s, length) ∧ length ≤ rest.length := by
  unfold symbolAt? at h
  split at h <;> cases h <;> simp [symbolAt?]

theorem symbolAt?_nil {c : Char} {rest : List Char} (h : symbolAt? c rest = none) :
    symbolAt? c [] = none := by
  revert h
  fun_cases symbolAt? c rest with
  | case24 =>
      intro h
      unfold symbolAt?
      split <;> simp_all
  | _ => nofun

theorem numeralLength_take (text : List Char) :
    let length := digitsLength text + fractionLength (text.drop (digitsLength text))
    digitsLength (text.take length) = digitsLength text ∧
      fractionLength ((text.take length).drop (digitsLength text)) =
        fractionLength (text.drop (digitsLength text)) ∧
      length ≤ text.length := by
  refine ⟨digitsLength_take_of_le (Nat.le_add_right _ _), ?_, ?_⟩
  · rw [List.drop_take, Nat.add_sub_cancel_left, fractionLength_take]
  · have whole := digitsLength_le text
    have part := fractionLength_le (text.drop (digitsLength text))
    rw [List.length_drop] at part
    omega

/-- A lexeme depends on no more text than it covers. -/
theorem lexeme_take {c : Char} {rest : List Char} {token : Option Token} {length : Nat}
    (begins : lexeme c rest = (token, length)) :
    lexeme c (rest.take length) = (token, length) ∧ length ≤ rest.length := by
  rw [lexeme] at begins ⊢
  split at begins
  · rename_i name
    cases begins
    obtain ⟨whole, bound⟩ := nameLength_take rest
    refine ⟨?_, bound⟩
    simp only [if_pos name, whole, List.take_take, Nat.min_self]
  · rename_i unnamed
    rw [if_neg unnamed]
    split at begins
    · rename_i digit
      cases begins
      obtain ⟨whole, part, bound⟩ := numeralLength_take rest
      refine ⟨?_, bound⟩
      simp only [if_pos digit, whole, part, List.take_take, Nat.min_self]
    · rename_i other
      rw [if_neg other]
      split at begins
      · rename_i point
        cases begins
        have whole := digitsLength_take_of_le (Nat.le_refl (digitsLength rest))
        refine ⟨?_, digitsLength_le rest⟩
        simp only [whole, if_pos point, List.take_take, Nat.min_self]
      · rename_i pointless
        -- fewer characters show no digit behind the point either
        have shorter : ¬(c == '.' && digitsLength (rest.take length) != 0) = true := by
          simp only [Bool.and_eq_true, bne_iff_ne, not_and, not_not] at pointless ⊢
          intro point
          rw [digitsLength_take_of_le (pointless point ▸ Nat.zero_le _), pointless point]
        rw [if_neg shorter]
        split at begins
        · rename_i quote
          rw [if_pos quote]
          obtain ⟨whole, bound⟩ := quotedLength_take c rest
          dsimp only at begins ⊢
          split at begins
          · rename_i closed
            cases begins
            refine ⟨?_, bound⟩
            rw [whole, if_pos closed, List.take_take, Nat.min_eq_left (Nat.sub_le _ _)]
          · rename_i opens
            cases begins
            exact ⟨by rw [whole, if_neg opens], bound⟩
        · rename_i unquoted
          rw [if_neg unquoted]
          split at begins
          · rename_i s n symbol
            cases begins
            obtain ⟨same, bound⟩ := symbolAt?_take symbol
            exact ⟨by rw [same], bound⟩
          · rename_i none
            cases begins
            exact ⟨by rw [List.take_zero, symbolAt?_nil none], Nat.zero_le _⟩

/-- Whether a lexeme is the one at byte `place` of a text, where `c` and `body` stand in front of
`after`. -/
structure Lexeme.Covers (l : Lexeme) (place : Nat) (c : Char) (body after : List Char) : Prop where
  visible : isBlank c = false
  begins : lexeme c (body ++ after) = (l.token, body.length)
  text : l.text = String.ofList (c :: body)
  start : l.span.start = place
  stop : l.span.stop = place + Text.byteLength (c :: body)

/-- The lexemes of a text that begins at byte `start`, each with what it covers. -/
inductive Lexes : Nat → List Char → List Lexeme → Prop
  | nil {start : Nat} : Lexes start [] []
  | blank {start : Nat} {c : Char} {rest : List Char} {ls : List Lexeme} (separates : isBlank c = true)
      (more : Lexes (start + c.utf8Size) rest ls) : Lexes start (c :: rest) ls
  | lexeme {start : Nat} {c : Char} {body after : List Char} {l : Lexeme} {ls : List Lexeme}
      (covers : l.Covers start c body after) (more : Lexes l.span.stop after ls) :
      Lexes start (c :: body ++ after) (l :: ls)

theorem lexes_lexFrom (start : Nat) (text : List Char) : Lexes start text (lexFrom start text) := by
  fun_induction lexFrom start text with
  | case1 => exact .nil
  | case2 start c rest blank ih => exact .blank blank ih
  | case3 start c rest visible token length begins text stop ih =>
      have covers : Lexeme.Covers ⟨token, String.ofList text, ⟨start, stop⟩⟩ start c (rest.take length)
          (rest.drop length) := by
        refine ⟨Bool.eq_false_iff.mpr visible, ?_, rfl, rfl, rfl⟩
        rw [List.take_append_drop, begins, List.length_take_of_le (lexeme_take begins).2]
      have lexes := Lexes.lexeme covers ih
      rwa [List.cons_append, List.take_append_drop] at lexes

section

variable {start : Nat} {text : List Char} {ls : List Lexeme}

theorem Lexes.exists_covers (h : Lexes start text ls) {l : Lexeme} (member : l ∈ ls) :
    ∃ before c body after, text = before ++ (c :: body) ++ after ∧
      l.Covers (start + Text.byteLength before) c body after := by
  induction h with
  | nil => cases member
  | @blank start d rest ls _ _ ih =>
      obtain ⟨before, c, body, after, rfl, covers⟩ := ih member
      refine ⟨d :: before, c, body, after, rfl, ?_⟩
      rwa [Text.byteLength_cons, ← Nat.add_assoc]
  | @lexeme start d front rest m ls own _ ih =>
      cases List.mem_cons.mp member with
      | inl same =>
          obtain rfl := same
          exact ⟨[], d, front, rest, rfl, own⟩
      | inr later =>
          obtain ⟨before, c, body, after, rfl, covers⟩ := ih later
          refine ⟨d :: front ++ before, c, body, after, by simp only [List.append_assoc], ?_⟩
          rwa [Text.byteLength_append, ← Nat.add_assoc, ← own.stop]

theorem Lexes.le_start (h : Lexes start text ls) {l : Lexeme} (member : l ∈ ls) :
    start ≤ l.span.start := by
  obtain ⟨before, c, body, after, -, covers⟩ := h.exists_covers member
  exact covers.start ▸ Nat.le_add_right _ _

/-- Lexemes stand one behind the other. -/
theorem Lexes.pairwise (h : Lexes start text ls) :
    ls.Pairwise fun l m => l.span.stop ≤ m.span.start := by
  induction h with
  | nil => exact .nil
  | blank _ _ ih => exact ih
  | lexeme _ more ih => exact .cons (fun m later => more.le_start later) ih

/-- Each byte of a text belongs to a lexeme or to a blank. -/
theorem Lexes.covered_or_blank (h : Lexes start text ls) {i : Nat} (first : start ≤ i)
    (last : i < start + Text.byteLength text) :
    (∃ l ∈ ls, l.span.start ≤ i ∧ i < l.span.stop) ∨
      ∃ before c after, text = before ++ c :: after ∧ isBlank c = true ∧
        start + Text.byteLength before ≤ i ∧ i < start + Text.byteLength before + c.utf8Size := by
  induction h with
  | nil => exact absurd (Nat.lt_of_le_of_lt first last) (Nat.lt_irrefl _)
  | @blank start d rest ls separates _ ih =>
      by_cases own : i < start + d.utf8Size
      · exact .inr ⟨[], d, rest, rfl, separates, first, own⟩
      · rw [Text.byteLength_cons, ← Nat.add_assoc] at last
        refine (ih (Nat.le_of_not_lt own) last).imp_right ?_
        rintro ⟨before, c, after, rfl, blank, place⟩
        refine ⟨d :: before, c, after, rfl, blank, ?_⟩
        rwa [Text.byteLength_cons, ← Nat.add_assoc]
  | @lexeme start d front rest l ls covers _ ih =>
      by_cases own : i < l.span.stop
      · exact .inl ⟨l, .head _, by rwa [covers.start], own⟩
      · rw [Text.byteLength_append, ← Nat.add_assoc, ← covers.stop] at last
        refine (ih (Nat.le_of_not_lt own) last).imp ?_ ?_
        · rintro ⟨m, later, place⟩
          exact ⟨m, .tail _ later, place⟩
        · rintro ⟨before, c, after, rfl, blank, place⟩
          refine ⟨d :: front ++ before, c, after, by simp only [List.append_assoc], blank, ?_⟩
          rwa [Text.byteLength_append, ← Nat.add_assoc, ← covers.stop]

end

/-- What a lexeme covers is that lexeme alone. -/
theorem Lexeme.Covers.lex_text {l : Lexeme} {start : Nat} {c : Char} {body after : List Char}
    (covers : l.Covers start c body after) :
    lex (String.ofList (c :: body)) = [⟨l.token, l.text, ⟨0, l.span.stop - l.span.start⟩⟩] := by
  have begins : lexeme c body = (l.token, body.length) := by
    simpa using (lexeme_take covers.begins).1
  rw [lex, String.toList_ofList, lexFrom, if_neg (Bool.eq_false_iff.mp covers.visible), begins,
    covers.text, covers.start, covers.stop]
  simp only [List.take_length, List.drop_length, lexFrom, Nat.zero_add, Nat.add_sub_cancel_left]

theorem utf8Size_of_isBlank {c : Char} (h : isBlank c = true) :
    c.utf8Size = 1 ∧ c.val.toUInt8 ∈ [0x20, 0x09, 0x0d, 0x0a] := by
  simp only [isBlank, Bool.or_eq_true, beq_iff_eq] at h
  obtain ((rfl | rfl) | rfl) | rfl := h <;> decide

theorem exists_covers_of_mem_lex {text : String} {l : Lexeme} (member : l ∈ lex text) :
    ∃ before c body after, text.toList = before ++ (c :: body) ++ after ∧
      l.Covers (Text.byteLength before) c body after := by
  have covers := (lexes_lexFrom 0 text.toList).exists_covers member
  simpa only [Nat.zero_add] using covers

theorem Lexeme.Covers.extract_eq {l : Lexeme} {text : String} {c : Char} {before body after : List Char}
    (covers : l.Covers (Text.byteLength before) c body after)
    (split : text.toList = before ++ (c :: body) ++ after) :
    String.Pos.Raw.extract text ⟨l.span.start⟩ ⟨l.span.stop⟩ = String.ofList (c :: body) := by
  rw [covers.start, covers.stop, Text.extract_of_split split]

/-- Only blanks stand outside the lexemes. -/
theorem byte_of_not_covered {text : String} {i : Nat} (inside : (⟨i⟩ : String.Pos.Raw) < text.rawEndPos)
    (outside : ∀ l ∈ lex text, ¬(l.span.start ≤ i ∧ i < l.span.stop)) :
    text.getUTF8Byte ⟨i⟩ inside ∈ [0x20, 0x09, 0x0d, 0x0a] := by
  have last : i < 0 + Text.byteLength text.toList := by
    rw [Nat.zero_add, ← Text.utf8ByteSize_eq]
    exact inside
  obtain covered | ⟨before, c, after, split, blank, low, high⟩ :=
    (lexes_lexFrom 0 text.toList).covered_or_blank (Nat.zero_le i) last
  · obtain ⟨l, member, place⟩ := covered
    exact absurd place (outside l member)
  · obtain ⟨single, value⟩ := utf8Size_of_isBlank blank
    obtain rfl : i = Text.byteLength before := by omega
    rwa [Text.getUTF8Byte_of_split split single inside]

/-- The lexer loses nothing. The lexemes of a text, be they tokens or not, are stretches of it that are
not empty and stand one behind the other, every byte outside them is a blank, and the stretch of a lexeme
alone is just that lexeme. -/
theorem lex_lossless (text : String) :
    (∀ l ∈ lex text, l.span.start < l.span.stop ∧
      String.Pos.Raw.IsValid text ⟨l.span.start⟩ ∧ String.Pos.Raw.IsValid text ⟨l.span.stop⟩ ∧
      l.text = String.Pos.Raw.extract text ⟨l.span.start⟩ ⟨l.span.stop⟩) ∧
    (lex text).Pairwise (fun l m => l.span.stop ≤ m.span.start) ∧
    (∀ (i : Nat) (inside : (⟨i⟩ : String.Pos.Raw) < text.rawEndPos),
      (∀ l ∈ lex text, ¬(l.span.start ≤ i ∧ i < l.span.stop)) →
      text.getUTF8Byte ⟨i⟩ inside ∈ [0x20, 0x09, 0x0d, 0x0a]) ∧
    (∀ l ∈ lex text, lex (String.Pos.Raw.extract text ⟨l.span.start⟩ ⟨l.span.stop⟩) =
      [⟨l.token, l.text, ⟨0, l.span.stop - l.span.start⟩⟩]) := by
  refine ⟨?_, (lexes_lexFrom 0 text.toList).pairwise, fun i => byte_of_not_covered, ?_⟩
  · intro l member
    obtain ⟨before, c, body, after, split, covers⟩ := exists_covers_of_mem_lex member
    have start := Text.isValid_of_split (split.trans (List.append_assoc ..))
    rw [← covers.start] at start
    have stop := Text.isValid_of_split split
    rw [Text.byteLength_append, ← covers.stop] at stop
    have nonempty : l.span.start < l.span.stop := by
      rw [covers.start, covers.stop]
      exact Nat.lt_add_of_pos_right (Text.byteLength_cons_pos c body)
    exact ⟨nonempty, start, stop, by rw [covers.extract_eq split, covers.text]⟩
  · intro l member
    obtain ⟨before, c, body, after, split, covers⟩ := exists_covers_of_mem_lex member
    rw [covers.extract_eq split, covers.lex_text]

end CharacterRules.Formula
