import CharacterRules.Proofs.Formula.Grammar

/-!
Texts that divide into tokens without a rest, and the texts that formulas may carry: what stands
between quotes, and names. Formula text that divides into tokens of the grammar is read.
-/

namespace CharacterRules.Formula

/-- The tokens that a text divides into, if it holds nothing else but blanks. -/
inductive Divides : List Char → List Token → Prop
  | nil : Divides [] []
  | blank {c : Char} {rest : List Char} {ts : List Token} (separates : isBlank c = true)
      (more : Divides rest ts) : Divides (c :: rest) ts
  | token {c : Char} {rest : List Char} {t : Token} {length : Nat} {ts : List Token}
      (visible : isBlank c = false) (begins : lexeme c rest = (some t, length))
      (more : Divides (rest.drop length) ts) : Divides (c :: rest) (t :: ts)

theorem map_token_lexFrom {text : List Char} {ts : List Token} (h : Divides text ts)
    (start : Nat) : (lexFrom start text).map Lexeme.token = ts.map some := by
  induction h generalizing start with
  | nil =>
      rw [lexFrom]
      rfl
  | blank separates _ ih =>
      rw [lexFrom, if_pos separates]
      exact ih _
  | token visible begins _ ih =>
      rw [lexFrom, if_neg (Bool.eq_false_iff.mp visible), begins, List.map_cons, List.map_cons, ih]

/-- A text of nothing but tokens that the grammar derives as a formula is read as it. -/
theorem parse_of_lexes {text : String} {ts : List Token} {e : Expr}
    (tokens : (lex text).map Lexeme.token = ts.map some) (derived : Derives (.conditional e) ts) :
    parse text = .ok e := by
  have none : ((lex text).filterMap fun l : Lexeme =>
      if l.token.isNone then some (⟨l.span, .unexpectedText l.text⟩ : SyntaxFault) else none) =
      [] := by
    refine List.filterMap_eq_nil_iff.mpr fun l hl => if_neg ?_
    have member : l.token ∈ ts.map some := tokens ▸ List.mem_map_of_mem hl
    obtain ⟨t, -, found⟩ := List.mem_map.mp member
    rw [← found]
    exact Bool.false_ne_true
  have located : ((lex text).filterMap fun l => l.token.map (·, l.span)).map Prod.fst = ts := by
    have fst : ∀ l : Lexeme, (l.token.map (·, l.span)).map Prod.fst = l.token := by
      intro l
      cases l.token <;> rfl
    rw [List.map_filterMap, funext fst]
    calc (lex text).filterMap Lexeme.token = ((lex text).map Lexeme.token).filterMap id := by
          rw [List.filterMap_map]
          rfl
      _ = ts := by rw [tokens, List.filterMap_map, Function.id_comp, List.filterMap_some]
  simp only [parse, none, List.isEmpty_nil, if_pos]
  exact ofTokens_of_derives derived located _

/-- A text that divides into tokens which the grammar derives as a formula is read as it. -/
theorem parse_of_derives {text : String} {ts : List Token} {e : Expr}
    (divided : Divides text.toList ts) (derived : Derives (.conditional e) ts) :
    parse text = .ok e :=
  parse_of_lexes (map_token_lexFrom divided 0) derived

/-- Whether a text may stand between two `quote`s: each of its own is behind a backslash, and no
backslash is the last character or stands before a line break. -/
def isQuotable (quote : Char) : List Char → Bool
  | [] => true
  | [c] => c != quote && c != '\\'
  | c :: d :: rest =>
    if c == quote then false
    else if c == '\\' then d != '\n' && isQuotable quote rest
    else isQuotable quote (d :: rest)

theorem quotedLength_append {quote : Char} {text : List Char} (h : isQuotable quote text = true)
    (rest : List Char) :
    quotedLength quote (text ++ quote :: rest) = (text.length + 1, true) := by
  have closing : quotedLength quote (quote :: rest) = (1, true) := by
    cases rest <;> simp [quotedLength]
  fun_induction isQuotable quote text with
  | case1 => exact closing
  | case2 c =>
      simp only [Bool.and_eq_true, bne_iff_ne] at h
      simp [quotedLength, h.1, h.2, closing]
  | case3 => exact Bool.noConfusion h
  | case4 c d text plain escapes ih =>
      rw [Bool.and_eq_true, bne_iff_ne] at h
      simp [quotedLength, plain, escapes, h.1, ih h.2]
  | case5 c d text plain unescaped ih =>
      have later := ih h
      rw [List.cons_append] at later
      simp [quotedLength, plain, unescaped, later]

/-- A text between quotes is one token, without its escapes. -/
theorem Divides.quoted {text : List Char} (quotable : isQuotable '"' text = true)
    {rest : List Char} {ts : List Token} (more : Divides rest ts) :
    Divides ('"' :: (text ++ '"' :: rest)) (.text (String.ofList (unescape text)) :: ts) := by
  have begins : lexeme '"' (text ++ '"' :: rest) =
      (some (.text (String.ofList (unescape text))), text.length + 1) := by
    simp [lexeme, quotedLength_append quotable, isNameStart]
  refine .token rfl begins ?_
  rw [List.drop_append, List.drop_eq_nil_of_le (Nat.le_succ _)]
  simpa using more

/-- Whether a text is a name. -/
def isName : List Char → Bool
  | [] => false
  | c :: rest => isNameStart c && nameLength rest == rest.length

/-- Whether a text does not continue a name in front of it. -/
def endsName : List Char → Bool
  | [] => true
  | c :: _ => !isNamePart c && c != '.'

theorem nameLength_append {text : List Char} (h : nameLength text = text.length)
    {rest : List Char} (stop : endsName rest = true) :
    nameLength (text ++ rest) = text.length := by
  have stops : nameLength rest = 0 := by
    cases rest with
    | nil => rfl
    | cons d rest =>
        simp only [endsName, Bool.and_eq_true, Bool.not_eq_true', bne_iff_ne] at stop
        cases rest <;> simp [nameLength, stop]
  fun_induction nameLength text with
  | case1 => exact stops
  | case2 c part =>
      cases rest with
      | nil => simp [nameLength, part]
      | cons d rest => simp [nameLength, part, stops]
  | case3 c => simp at h
  | case4 c e text part ih =>
      have later := ih (Nat.succ.inj h)
      rw [List.cons_append] at later
      simp [nameLength, part, later]
  | case5 c e text part joins ih =>
      simp [nameLength, part, joins, ih (by simpa using h)]
  | case6 => simp at h

theorem isBlank_of_isNameStart {c : Char} (h : isNameStart c = true) : isBlank c = false := by
  refine Bool.eq_false_iff.mpr fun blank => ?_
  simp only [isBlank, Bool.or_eq_true, beq_iff_eq] at blank
  rcases blank with ((rfl | rfl) | rfl) | rfl <;> exact absurd h (by decide)

/-- A name is one token, if what is behind it does not continue it. -/
theorem Divides.name {text : List Char} (name : isName text = true) {rest : List Char}
    (stop : endsName rest = true) {ts : List Token} (more : Divides rest ts) :
    Divides (text ++ rest) (.ident (String.ofList text) :: ts) := by
  cases text with
  | nil => exact Bool.noConfusion name
  | cons c text =>
      obtain ⟨start, whole⟩ := Bool.and_eq_true_iff.mp name
      have length := nameLength_append (eq_of_beq whole) stop
      have begins : lexeme c (text ++ rest) =
          (some (.ident (String.ofList (c :: text))), text.length) := by
        simp [lexeme, start, length]
      refine .token (isBlank_of_isNameStart start) begins ?_
      simpa using more

end CharacterRules.Formula
