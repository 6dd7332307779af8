import CharacterRules.Proofs.Formula.Literal
import CharacterRules.Proofs.Number.ReadBack
import CharacterRules.Proofs.Text.Trim

/-!
Reading a formula back from its text. The text of an expression divides into the tokens that derive it,
unless a key has a quote or a backslash, which are written as they are. An infinite number is shown as
a word, so it is read back as a name.
-/

namespace CharacterRules

/-- The symbol of an operator in front. -/
def UnaryOp.sign : UnaryOp → Symbol
  | .neg => .minus
  | .not => .bang

/-- The symbol of an operator between two operands. -/
def BinaryOp.sign : BinaryOp → Symbol
  | .add => .plus
  | .sub => .minus
  | .mul => .star
  | .div => .slash
  | .rem => .percent
  | .eq => .eqEq
  | .ne => .notEq
  | .lt => .lt
  | .le => .ltEq
  | .gt => .gt
  | .ge => .gtEq
  | .and => .andAnd
  | .or => .orOr

theorem UnaryOp.unary?_sign (op : UnaryOp) : op.sign.unary? = some op := by cases op <;> rfl

theorem BinaryOp.binary?_sign (op : BinaryOp) : op.sign.binary? = some op := by cases op <;> rfl

namespace Expr

mutual

/-- The literals, names and keys that an expression is made of. -/
def leaves : Expr → List Expr
  | .literal v => [.literal v]
  | .ident name => [.ident name]
  | .index key => [.index key]
  | .unary _ e => e.leaves
  | .binary _ l r => l.leaves ++ r.leaves
  | .call _ es => leavesAll es
  | .conditional c t e => c.leaves ++ (t.leaves ++ e.leaves)

/-- The literals, names and keys that a list of expressions is made of. -/
def leavesAll : List Expr → List Expr
  | [] => []
  | e :: rest => e.leaves ++ leavesAll rest

end

mutual

/-- What the text of an expression is read as: an infinite number is a name. -/
def shown : Expr → Expr
  | .literal (.number (.infinity _)) => .ident "inf"
  | .literal v => .literal v
  | .ident name => .ident name
  | .index key => .index key
  | .unary op e => .unary op e.shown
  | .binary op l r => .binary op l.shown r.shown
  | .call f es => .call f (shownAll es)
  | .conditional c t e => .conditional c.shown t.shown e.shown

/-- What the texts of a list of expressions are read as. -/
def shownAll : List Expr → List Expr
  | [] => []
  | e :: rest => e.shown :: shownAll rest

end

mutual

/-- The tokens of the text of an expression. -/
def tokens : Expr → List Token
  | .literal (.number (.infinity _)) => [.ident "inf"]
  | .literal (.number n) => [.number n]
  | .literal (.text s) => [.text s]
  | .ident name => [.ident name]
  | .index key => [.ident "dict", .symbol .lBracket, .text key, .symbol .rBracket]
  | .unary op e => .symbol op.sign :: e.tokens
  | .binary op l r =>
    .symbol .lParen :: (l.tokens ++ .symbol op.sign :: (r.tokens ++ [.symbol .rParen]))
  | .call f es => .ident f.name :: .symbol .lParen :: (tokensAll es ++ [.symbol .rParen])
  | .conditional c t e => .symbol .lParen ::
    (c.tokens ++ .symbol .question :: (t.tokens ++ .symbol .colon :: (e.tokens ++ [.symbol .rParen])))

/-- The tokens of the texts of a list of expressions with commas between them. -/
def tokensAll : List Expr → List Token
  | [] => []
  | [e] => e.tokens
  | e :: rest => e.tokens ++ .symbol .comma :: tokensAll rest

end

end Expr

namespace Formula

theorem Derives.operand_of_unary {e : Expr} {ts : List Token} (h : Derives (.unary e) ts)
    {level : Nat} (bound : level ≤ 6) : Derives (.chain level e) ts :=
  .loosen bound (Nat.le_refl 6) (.operand h)

theorem Derives.conditional_of_unary {e : Expr} {ts : List Token} (h : Derives (.unary e) ts) :
    Derives (.conditional e) ts :=
  .operators (h.operand_of_unary (Nat.zero_le 6))

theorem ofName?_name (f : Builtin) : Builtin.ofName? f.name = some f := by
  cases f <;> decide

mutual

/-- The tokens of a written expression derive it. -/
theorem derives_tokens : ∀ {e : Expr}, e.IsWritten → Derives (.unary e.shown) e.tokens
  | .literal (.number (.infinity _)), _ => .bare (.word "inf")
  | .literal (.number .nan), _ => .bare (.number _)
  | .literal (.number (.finite ..)), _ => .bare (.number _)
  | .literal (.text s), _ => .bare (.text s)
  | .ident name, h => by
      have word := Derives.word name
      rw [wordExpr, if_neg (by simpa using h.2.1), if_neg (by simpa using h.2.2)] at word
      exact .bare word
  | .index key, _ => .bare (.index key)
  | .unary op e, h => .signed op.unary?_sign (derives_tokens (e := e) h)
  | .binary op l r, h => by
      have tight : op.level + 1 ≤ 6 := by cases op <;> decide
      have chain := Derives.binary op.binary?_sign ((derives_tokens h.1).operand_of_unary tight)
        ((derives_tokens h.2).operand_of_unary tight)
      have group := Derives.group (.operators (.loosen (Nat.zero_le _) (by omega) chain))
      rw [List.append_assoc] at group
      exact .bare group
  | .call f es, h => .bare (.call (ofName?_name f) (derives_tokensAll h))
  | .conditional c t e, h => by
      have choice := Derives.choice ((derives_tokens h.1).operand_of_unary (Nat.zero_le 6))
        (derives_tokens h.2.1).conditional_of_unary (derives_tokens h.2.2).conditional_of_unary
      have group := Derives.group choice
      simp only [List.append_assoc, List.cons_append] at group
      exact .bare group

theorem derives_tokensAll : ∀ {es : List Expr}, Expr.AreWritten es →
    Derives (.arguments (Expr.shownAll es)) (Expr.tokensAll es)
  | [], _ => .noArgument
  | [_], h => .lastArgument (derives_tokens h.1).conditional_of_unary
  | _ :: _ :: _, h => .argument (derives_tokens h.1).conditional_of_unary (derives_tokensAll h.2)

end

theorem isDigit_of_endsName {rest : List Char} (stop : endsName rest = true) :
    ∀ c ∈ rest.head?, c.isDigit = false := by
  intro c first
  obtain ⟨rest, rfl⟩ := List.head?_eq_some_iff.mp first
  simp only [endsName, isNamePart, Bool.and_eq_true, Bool.not_eq_true', Bool.or_eq_false_iff] at stop
  exact stop.1.2

theorem digitsLength_append {digits rest : List Char} (all : ∀ c ∈ digits, c.isDigit = true)
    (stop : ∀ c ∈ rest.head?, c.isDigit = false) :
    digitsLength (digits ++ rest) = digits.length := by
  rw [digitsLength, Text.takeWhile_append_of_stop all stop]

theorem fractionLength_of_endsName {rest : List Char} (stop : endsName rest = true) :
    fractionLength rest = 0 := by
  cases rest with
  | nil => rfl
  | cons c rest =>
      rw [fractionLength.eq_def]
      split
      · rename_i point
        cases point
        cases stop
      · rfl

/-- A numeral is one token, if what is behind it does not continue a name. -/
theorem Divides.numeral {whole part : List Char} (h : Number.IsNumeral whole part)
    {rest : List Char} (stop : endsName rest = true) {ts : List Token} (more : Divides rest ts) :
    Divides (Number.numeralText whole part ++ rest)
      (.number (numeral (Number.numeralText whole part)) :: ts) := by
  obtain ⟨nonempty, digits⟩ := h
  obtain ⟨c, whole, rfl⟩ := List.exists_cons_of_ne_nil nonempty
  obtain ⟨first, digits⟩ := List.forall_mem_cons.mp digits
  obtain ⟨front, behind⟩ := List.forall_mem_append.mp digits
  obtain ⟨tail, htail⟩ : ∃ tail, tail = if part = [] then [] else '.' :: part := ⟨_, rfl⟩
  obtain ⟨visible, start⟩ : isBlank c = false ∧ isNameStart c = false :=
    Unicode.of_isDigit (P := fun c => isBlank c = false ∧ isNameStart c = false)
      (by decide) first
  have boundary : ∀ d ∈ (tail ++ rest).head?, d.isDigit = false := by
    rw [htail]
    split
    · exact isDigit_of_endsName stop
    · rintro _ ⟨⟩
      rfl
  have fraction : fractionLength (tail ++ rest) = tail.length := by
    rw [htail]
    split
    · exact fractionLength_of_endsName stop
    · rename_i point
      have length := digitsLength_append behind (isDigit_of_endsName stop)
      have some : part.length ≠ 0 := List.length_eq_zero_iff.not.mpr point
      rw [List.cons_append, fractionLength, length, if_neg some, List.length_cons]
  rw [Number.numeralText, ← htail, List.cons_append, List.cons_append, List.append_assoc]
  -- the lexer takes the digits, then the fraction, and stops at `rest`
  have begins : lexeme c (whole ++ (tail ++ rest)) =
      (some (.number (Formula.numeral (c :: (whole ++ tail)))), (whole ++ tail).length) := by
    have taken : (whole ++ (tail ++ rest)).take (whole.length + tail.length) = whole ++ tail := by
      rw [← List.append_assoc, ← List.length_append, List.take_left]
    simp only [lexeme, start, first, digitsLength_append front boundary, List.drop_left, fraction,
      taken, Bool.false_eq_true, if_false, if_true, List.length_append]
  refine .token visible begins ?_
  rwa [← List.append_assoc, List.drop_left]

/-- An operator with a blank behind it is one token. -/
theorem Divides.operator (op : BinaryOp) {rest : List Char} {ts : List Token}
    (more : Divides rest ts) :
    Divides (op.symbol.toList ++ ' ' :: rest) (.symbol op.sign :: ts) := by
  have blank : Divides (' ' :: rest) ts := .blank rfl more
  cases op <;> exact .token rfl rfl blank

/-- A character that is a symbol of its own is one token. -/
theorem Divides.mark {c : Char} {s : Symbol} {rest : List Char} {ts : List Token}
    (visible : isBlank c = false) (begins : lexeme c rest = (some (.symbol s), 0))
    (more : Divides rest ts) : Divides (c :: rest) (.symbol s :: ts) :=
  .token visible begins more

theorem unescape_cons {c : Char} (plain : c ≠ '\\') (rest : List Char) :
    unescape (c :: rest) = c :: unescape rest := by
  cases rest <;> simp [unescape, plain]

theorem isQuotable_cons {quote c : Char} (plain : c ≠ quote ∧ c ≠ '\\') (rest : List Char) :
    isQuotable quote (c :: rest) = isQuotable quote rest := by
  cases rest <;> simp [isQuotable, plain]

/-- A text without double quotes and backslashes can be quoted as it is. -/
theorem unescape_of_plain {text : List Char} (plain : ∀ c ∈ text, c ≠ '"' ∧ c ≠ '\\') :
    isQuotable '"' text = true ∧ unescape text = text := by
  induction text with
  | nil => exact ⟨rfl, rfl⟩
  | cons c text ih =>
      obtain ⟨own, later⟩ := List.forall_mem_cons.mp plain
      rw [isQuotable_cons own, unescape_cons own.2, (ih later).2]
      exact ⟨(ih later).1, rfl⟩

/-- Any text can be quoted with backslashes before its double quotes and backslashes. -/
theorem unescape_escapeChars (text : List Char) :
    isQuotable '"' (Text.escapeChars (fun c => c == '\\' || c == '"') text) = true ∧
      unescape (Text.escapeChars (fun c => c == '\\' || c == '"') text) = text := by
  induction text with
  | nil => exact ⟨rfl, rfl⟩
  | cons c text ih =>
      rw [Text.escapeChars, List.flatMap_cons]
      change isQuotable '"' (_ ++ Text.escapeChars _ text) = true ∧
        unescape (_ ++ Text.escapeChars _ text) = _
      split
      · rename_i special
        have line : c ≠ '\n' := by
          rintro rfl
          cases special
        simp [isQuotable, unescape, line, ih]
      · rename_i plain
        simp only [Bool.or_eq_true, beq_iff_eq, not_or] at plain
        rw [List.singleton_append, isQuotable_cons ⟨plain.2, plain.1⟩, unescape_cons plain.1, ih.2]
        exact ⟨ih.1, rfl⟩

theorem ofText?_display_of_hasSign {x : Number} (h : x.hasSign false = true) :
    Number.ofText? x.display = some x := by
  rw [Number.ofText?_display]
  split
  · rename_i zero
    obtain ⟨sign, rfl⟩ := Number.eq_signedZero_of_isZero zero
    obtain rfl : sign = false := eq_of_beq h
    rfl
  · rfl

/-- The text of a literal is one token. -/
theorem Divides.literalText {v : Value} (written : (Expr.literal v).IsWritten) {rest : List Char}
    (stop : endsName rest = true) {ts : List Token} (more : Divides rest ts) :
    Divides ((literalText v).toList ++ rest) ((Expr.literal v).tokens ++ ts) := by
  cases v with
  | text s =>
      have quoted := Divides.quoted (unescape_escapeChars s.toList).1 more
      rw [(unescape_escapeChars s.toList).2, String.ofList_toList] at quoted
      simpa [CharacterRules.literalText, Expr.tokens] using quoted
  | number n =>
      cases n with
      | nan => cases written
      | infinity negative =>
          obtain rfl : negative = false := eq_of_beq written
          exact .name (by decide : isName "inf".toList = true) stop more
      | finite negative m e normal =>
          have sign : negative = false := eq_of_beq written
          subst sign
          obtain ⟨whole, part, numeral, shown⟩ := Number.exists_display_eq normal
          have read : Formula.numeral (Number.numeralText whole part) =
              .finite false m e normal := by
            rw [Formula.numeral, ← shown, ofText?_display_of_hasSign written, Option.getD_some]
          have divided := Divides.numeral numeral stop more
          rw [read] at divided
          show Divides ((Number.finite false m e normal).display.toList ++ rest) _
          rwa [shown, String.toList_ofList]

theorem lexeme_bang {rest : List Char} (h : rest.head? ≠ some '=') :
    lexeme '!' rest = (some (.symbol .bang), 0) := by
  cases rest with
  | nil => rfl
  | cons c rest =>
      have other : c ≠ '=' := fun same => h (congrArg some same)
      simp [lexeme, symbolAt?, isNameStart, other]

/-- The text of an expression does not turn an exclamation mark in front of it into an operator. -/
theorem head?_display_ne {e : Expr} (written : e.IsWritten) (rest : List Char) :
    (e.display.toList ++ rest).head? ≠ some '=' := by
  have cons : ∀ {c : Char} {text : List Char}, c ≠ '=' → (c :: text ++ rest).head? ≠ some '=' :=
    fun other same => other (Option.some.inj same)
  cases e with
  | literal v =>
      cases v with
      | number n =>
          obtain ⟨nonempty, shown⟩ := Number.isShown_display n
          obtain ⟨c, text, same⟩ := List.exists_cons_of_ne_nil nonempty
          show (n.display.toList ++ rest).head? ≠ _
          rw [same]
          refine cons ?_
          rintro rfl
          exact absurd (shown '=' (same ▸ List.mem_cons_self)) (by decide)
      | text s => simp [Expr.display, CharacterRules.literalText]
  | ident name =>
      obtain ⟨named, -, -⟩ := written
      show (name.toList ++ rest).head? ≠ _
      cases same : name.toList with
      | nil =>
          rw [same] at named
          cases named
      | cons c text =>
          rw [same, isName, Bool.and_eq_true] at named
          refine cons ?_
          rintro rfl
          exact absurd named.1 (by decide)
  | index key => simp [Expr.display]
  | unary op e => cases op <;> simp [Expr.display, UnaryOp.symbol]
  | binary op l r => simp [Expr.display]
  | call f es => cases f <;> simp [Expr.display, Builtin.name]
  | conditional c t e => simp [Expr.display]

/-- Whether the keys among some leaves have neither a double quote nor a backslash. -/
def PlainKeys (leaves : List Expr) : Prop :=
  ∀ key, .index key ∈ leaves → ∀ c ∈ key.toList, c ≠ '"' ∧ c ≠ '\\'

theorem plainKeys_append {as bs : List Expr} (h : PlainKeys (as ++ bs)) :
    PlainKeys as ∧ PlainKeys bs :=
  ⟨fun key hkey => h key (List.mem_append_left bs hkey),
    fun key hkey => h key (List.mem_append_right as hkey)⟩

mutual

/-- The text of an expression divides into its tokens. -/
theorem divides_display : ∀ {e : Expr}, e.IsWritten → PlainKeys e.leaves →
    ∀ {rest : List Char} {ts : List Token}, endsName rest = true → Divides rest ts →
    Divides (e.display.toList ++ rest) (e.tokens ++ ts)
  | .literal v, written, _, _, _, stop, more => .literalText written stop more
  | .ident name, written, _, rest, ts, stop, more => by
      have divided := Divides.name written.1 stop more
      rwa [String.ofList_toList] at divided
  | .index key, _, plain, rest, ts, _, more => by
      obtain ⟨quotable, same⟩ := unescape_of_plain (plain key (List.mem_singleton.mpr rfl))
      have quoted := Divides.quoted quotable (.mark (c := ']') rfl rfl more)
      rw [same, String.ofList_toList] at quoted
      have divided := Divides.name (by decide : isName "dict".toList = true) rfl
        (.mark (c := '[') rfl rfl quoted)
      simpa [Expr.display, Expr.tokens] using divided
  | .unary op e, written, plain, rest, ts, stop, more => by
      have operand := divides_display (e := e) written plain stop more
      have text : (Expr.unary op e).display.toList = op.symbol.toList ++ e.display.toList :=
        String.toList_append
      rw [text]
      cases op with
      | neg => exact .mark (c := '-') rfl rfl operand
      | not => exact .mark (c := '!') rfl (lexeme_bang (head?_display_ne (e := e) written rest)) operand
  | .binary op l r, written, plain, rest, ts, stop, more => by
      obtain ⟨left, right⟩ := plainKeys_append plain
      have second := divides_display written.2 right rfl (.mark (c := ')') rfl rfl more)
      have first := divides_display written.1 left rfl (.blank (c := ' ') rfl (.operator op second))
      have divided := Divides.mark (c := '(') rfl rfl first
      simpa [Expr.display, Expr.tokens] using divided
  | .call f es, written, plain, rest, ts, stop, more => by
      have arguments := divides_displayAll written plain rfl (.mark (c := ')') rfl rfl more)
      have divided := Divides.name (by cases f <;> decide : isName f.name.toList = true) rfl
        (.mark (c := '(') rfl rfl arguments)
      rw [String.ofList_toList] at divided
      simpa [Expr.display, Expr.tokens] using divided
  | .conditional c t e, written, plain, rest, ts, stop, more => by
      obtain ⟨condition, branches⟩ := plainKeys_append plain
      obtain ⟨whenTrue, whenFalse⟩ := plainKeys_append branches
      have third := divides_display written.2.2 whenFalse rfl (.mark (c := ')') rfl rfl more)
      have second := divides_display written.2.1 whenTrue rfl
        (.blank (c := ' ') rfl (.mark (c := ':') rfl rfl (.blank (c := ' ') rfl third)))
      have first := divides_display written.1 condition rfl
        (.blank (c := ' ') rfl (.mark (c := '?') rfl rfl (.blank (c := ' ') rfl second)))
      have divided := Divides.mark (c := '(') rfl rfl first
      simpa [Expr.display, Expr.tokens] using divided

theorem divides_displayAll : ∀ {es : List Expr}, Expr.AreWritten es →
    PlainKeys (Expr.leavesAll es) →
    ∀ {rest : List Char} {ts : List Token}, endsName rest = true → Divides rest ts →
    Divides ((Text.join ", " (Expr.displayAll es)).toList ++ rest) (Expr.tokensAll es ++ ts)
  | [], _, _, _, _, _, more => more
  | [e], written, plain, _, _, stop, more =>
      divides_display written.1 (plainKeys_append plain).1 stop more
  | e :: next :: es, written, plain, _, _, stop, more => by
      obtain ⟨first, later⟩ := plainKeys_append plain
      have others := divides_displayAll written.2 later stop more
      have divided := divides_display written.1 first rfl
        (.mark (c := ',') rfl rfl (.blank (c := ' ') rfl others))
      simpa [Expr.displayAll, Text.join, Expr.tokensAll] using divided

end

theorem finite_append {as bs : List Expr} :
    (∀ n, .literal (.number n) ∈ as ++ bs → n.isFinite = true) ↔
      (∀ n, .literal (.number n) ∈ as → n.isFinite = true) ∧
        ∀ n, .literal (.number n) ∈ bs → n.isFinite = true := by
  simp only [List.mem_append, or_imp, forall_and]

mutual

/-- An expression is read back as itself unless one of its numbers is infinite. -/
theorem shown_eq_iff : ∀ {e : Expr}, e.IsWritten →
    (e.shown = e ↔ ∀ n, .literal (.number n) ∈ e.leaves → n.isFinite = true)
  | .literal (.number (.infinity b)), _ => by
      simp [Expr.shown, Expr.leaves, Number.isFinite]
  | .literal (.number .nan), h => nomatch h
  | .literal (.number (.finite ..)), _ => by
      simp [Expr.shown, Expr.leaves, Number.isFinite]
  | .literal (.text s), _ => by simp [Expr.shown, Expr.leaves]
  | .ident name, h => by simp [Expr.shown, Expr.leaves]
  | .index key, _ => by simp [Expr.shown, Expr.leaves]
  | .unary op e, h => by
      simp only [Expr.shown, Expr.leaves, Expr.unary.injEq, true_and, shown_eq_iff (e := e) h]
  | .binary op l r, h => by
      simp only [Expr.shown, Expr.leaves, Expr.binary.injEq, true_and, shown_eq_iff h.1,
        shown_eq_iff h.2, finite_append]
  | .call f es, h => by
      have written : Expr.AreWritten es := h
      simp only [Expr.shown, Expr.leaves, Expr.call.injEq, true_and, shownAll_eq_iff written]
  | .conditional c t e, h => by
      simp only [Expr.shown, Expr.leaves, Expr.conditional.injEq, shown_eq_iff h.1,
        shown_eq_iff h.2.1, shown_eq_iff h.2.2, finite_append]

theorem shownAll_eq_iff : ∀ {es : List Expr}, Expr.AreWritten es →
    (Expr.shownAll es = es ↔ ∀ n, .literal (.number n) ∈ Expr.leavesAll es → n.isFinite = true)
  | [], _ => by simp [Expr.shownAll, Expr.leavesAll]
  | e :: es, h => by
      simp only [Expr.shownAll, Expr.leavesAll, List.cons.injEq, shown_eq_iff h.1,
        shownAll_eq_iff h.2, finite_append]

end

/-- The text of a formula that has been read is read as the same formula, if no number in it is
infinite; its keys must have no double quotes and backslashes, as these are shown as they are. -/
theorem parse_display {text : String} {e : Expr} (h : parse text = .ok e)
    (plain : ∀ key, .index key ∈ e.leaves → ∀ c ∈ key.toList, c ≠ '"' ∧ c ≠ '\\') :
    parse e.display = .ok e ↔ ∀ n, .literal (.number n) ∈ e.leaves → n.isFinite = true := by
  have written := isWritten_of_parse h
  have divided : Divides (e.display.toList ++ []) (e.tokens ++ []) :=
    divides_display written plain rfl .nil
  rw [List.append_nil, List.append_nil] at divided
  have read := parse_of_derives divided (derives_tokens written).conditional_of_unary
  rw [read, Except.ok.injEq, shown_eq_iff written]

/-- A choice between a negative number and a text with quotes in it, by a key. -/
def levelOrNone : Expr :=
  .conditional (.index "my level") (.unary .neg (.literal (.number 2))) (.literal (.text "\"none\""))

/-- Single quotes become double quotes, and the parentheses are new. -/
theorem parse_display_levelOrNone :
    parse "dict['my level'] ? -2 : '\"none\"'" = .ok levelOrNone ∧
      levelOrNone.display = "(dict[\"my level\"] ? -2 : \"\\\"none\\\"\")" ∧
      parse levelOrNone.display = .ok levelOrNone := by
  have condition := (Derives.bare (.index "my level")).operand_of_unary (Nat.zero_le 6)
  have whenTrue := Derives.signed (show Symbol.minus.unary? = some .neg from rfl) (.bare (.number 2))
  have whenFalse := Derives.bare (.text "\"none\"")
  have read : parse "dict['my level'] ? -2 : '\"none\"'" = .ok levelOrNone :=
    parse_of_lexes (by decide +kernel)
      (.choice condition whenTrue.conditional_of_unary whenFalse.conditional_of_unary)
  refine ⟨read, by decide, (parse_display read ?_).mpr ?_⟩
  · intro key member
    obtain rfl : key = "my level" := by simpa [levelOrNone, Expr.leaves] using member
    simp
  · intro n member
    obtain rfl : n = 2 := by simpa [levelOrNone, Expr.leaves] using member
    rfl

/-- A double quote in a key is shown as it is and ends the key when it is read. -/
theorem parse_display_quote :
    parse "dict['a\"b']" = .ok (.index "a\"b") ∧
      parse (Expr.index "a\"b").display ≠ .ok (.index "a\"b") := by
  have derived := (Derives.bare (.index "a\"b")).conditional_of_unary
  refine ⟨parse_of_lexes (by decide +kernel) derived, ?_⟩
  have failed : (parse (Expr.index "a\"b").display).toOption = none := by decide +kernel
  intro same
  rw [same] at failed
  cases failed

end Formula
end CharacterRules
