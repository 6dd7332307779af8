import CharacterRules.Formula.Parser

/-!
The grammar of formulas, and the reader's completeness for it: tokens that the grammar derives are
read as the tree that it gives them, whatever stands behind them as long as it does not continue
them. A chain of operators of one level groups to the left, so its grammar carries the tree of what
is already there.
-/

namespace CharacterRules.Formula

/-- The parts of a formula with the trees that they stand for. -/
inductive Part where
  | conditional (e : Expr)
  /-- A chain of operators of a level or tighter ones. -/
  | chain (level : Nat) (e : Expr)
  /-- The operators of a level with their right operands behind what `left` stands for. -/
  | tail (level : Nat) (left e : Expr)
  | unary (e : Expr)
  | atom (e : Expr)
  | arguments (es : List Expr)

/-- The tokens that make up a part. -/
inductive Derives : Part → List Token → Prop
  | operators {e : Expr} {ts : List Token} (chain : Derives (.chain 0 e) ts) :
      Derives (.conditional e) ts
  | choice {c t f : Expr} {ts us vs : List Token} (condition : Derives (.chain 0 c) ts)
      (whenTrue : Derives (.conditional t) us) (whenFalse : Derives (.conditional f) vs) :
      Derives (.conditional (.conditional c t f))
        (ts ++ .symbol .question :: (us ++ .symbol .colon :: vs))
  | chain {level : Nat} {left e : Expr} {ts us : List Token} (loose : level ≤ 5)
      (first : Derives (.chain (level + 1) left) ts) (more : Derives (.tail level left e) us) :
      Derives (.chain level e) (ts ++ us)
  | operand {e : Expr} {ts : List Token} (unary : Derives (.unary e) ts) :
      Derives (.chain 6 e) ts
  | done {level : Nat} {left : Expr} : Derives (.tail level left left) []
  | operator {level : Nat} {left right e : Expr} {s : Symbol} {op : BinaryOp} {ts us : List Token}
      (binary : s.binary? = some op) (same : op.level = level)
      (first : Derives (.chain (level + 1) right) ts)
      (more : Derives (.tail level (.binary op left right) e) us) :
      Derives (.tail level left e) (.symbol s :: (ts ++ us))
  | bare {e : Expr} {ts : List Token} (atom : Derives (.atom e) ts) : Derives (.unary e) ts
  | signed {e : Expr} {s : Symbol} {op : UnaryOp} {ts : List Token} (sign : s.unary? = some op)
      (rest : Derives (.unary e) ts) : Derives (.unary (.unary op e)) (.symbol s :: ts)
  | number (n : Number) : Derives (.atom (.literal (.number n))) [.number n]
  | text (s : String) : Derives (.atom (.literal (.text s))) [.text s]
  | word (name : String) : Derives (.atom (wordExpr name)) [.ident name]
  | index (key : String) : Derives (.atom (.index key))
      [.ident "dict", .symbol .lBracket, .text key, .symbol .rBracket]
  | call {name : String} {f : Builtin} {es : List Expr} {ts : List Token}
      (builtin : Builtin.ofName? name = some f) (arguments : Derives (.arguments es) ts) :
      Derives (.atom (.call f es))
        (.ident name :: .symbol .lParen :: (ts ++ [.symbol .rParen]))
  | group {e : Expr} {ts : List Token} (inner : Derives (.conditional e) ts) :
      Derives (.atom e) (.symbol .lParen :: (ts ++ [.symbol .rParen]))
  | noArgument : Derives (.arguments []) []
  | lastArgument {e : Expr} {ts : List Token} (last : Derives (.conditional e) ts) :
      Derives (.arguments [e]) ts
  | argument {e : Expr} {es : List Expr} {ts us : List Token}
      (first : Derives (.conditional e) ts) (more : Derives (.arguments es) us) :
      Derives (.arguments (e :: es)) (ts ++ .symbol .comma :: us)

namespace Derives

/-- A chain of tighter operators is one of looser ones, too. -/
theorem loosen {level more : Nat} (looser : level ≤ more) (bound : more ≤ 6) {e : Expr}
    {ts : List Token} (h : Derives (.chain more e) ts) : Derives (.chain level e) ts := by
  obtain ⟨steps, rfl⟩ := Nat.exists_eq_add_of_le looser
  induction steps with
  | zero => exact h
  | succ steps ih =>
      have alone := Derives.chain (show level + steps ≤ 5 by omega) h .done
      rw [List.append_nil] at alone
      exact ih (Nat.le_add_right level steps) (by omega) alone

/-- An atom is a chain of any level. -/
theorem chain_of_atom {e : Expr} {ts : List Token} (h : Derives (.atom e) ts) {level : Nat}
    (bound : level ≤ 6) : Derives (.chain level e) ts :=
  loosen bound (Nat.le_refl 6) (.operand (.bare h))

/-- Two chains with one operator between them. -/
theorem binary {s : Symbol} {op : BinaryOp} (binary : s.binary? = some op) {left right : Expr}
    {ts us : List Token} (first : Derives (.chain (op.level + 1) left) ts)
    (second : Derives (.chain (op.level + 1) right) us) :
    Derives (.chain op.level (.binary op left right)) (ts ++ .symbol s :: us) := by
  have loose : op.level ≤ 5 := by cases op <;> decide
  have more : Derives (.tail op.level left (.binary op left right)) (.symbol s :: (us ++ [])) :=
    .operator binary rfl second .done
  rw [List.append_nil] at more
  exact .chain loose first more

end Derives

namespace Reading

variable {α β : Type}

@[simp] theorem result_stop (rest : List Located) : (stop rest : Reading α).result = none := rfl

@[simp] theorem result_done (x : α) (faults : List SyntaxFault) (rest : List Located) :
    (done x faults rest).result = some (x, faults, rest) := rfl

theorem result_andThen_of_some {r : Reading α} {x : α} {rest : List Located}
    (h : r.result = some (x, [], rest)) (next : α → List Located → Reading β) :
    (r.andThen next).result = (next x rest).result := by
  rw [andThen, h]
  cases found : (next x rest).result with
  | none => simp only [found, Option.map_none]
  | some read => simp only [found, Option.map_some, List.nil_append]

theorem result_andThen_of_none {r : Reading α} (h : r.result = none)
    (next : α → List Located → Reading β) : (r.andThen next).result = none := by
  rw [andThen, h]

theorem result_orElse_of_some {r : Reading α} {x : α × List SyntaxFault × List Located}
    (h : r.result = some x) (other : Unit → Reading α) :
    (r.orElse other).result = some x := by
  rw [orElse, h]
  exact h

theorem result_orElse_of_none {r : Reading α} (h : r.result = none) (other : Unit → Reading α) :
    (r.orElse other).result = (other ()).result := by
  rw [orElse, h]

theorem result_map_of_some {r : Reading α} {x : α} {rest : List Located}
    (h : r.result = some (x, [], rest)) (f : α → β) :
    (r.map f).result = some (f x, [], rest) := by
  rw [map, h]
  rfl

end Reading

open Reading

/-- Whether the tokens begin with a symbol. -/
def beginsWith (s : Symbol) : List Located → Bool
  | (.symbol t, _) :: _ => s == t
  | _ => false

/-- Whether a symbol does not continue a chain of a level in front of it. -/
def closesChain (level : Nat) (s : Symbol) : Bool :=
  s != .lParen && s != .lBracket && s.binary?.all fun op => decide (op.level < level)

/-- Whether tokens do not continue a chain of a level in front of them. -/
def closes (level : Nat) : List Located → Bool
  | [] => true
  | (.symbol s, _) :: _ => closesChain level s
  | _ => false

/-- Whether tokens do not continue a conditional in front of them. -/
def ends (rest : List Located) : Bool := closes 0 rest && !beginsWith .question rest

theorem closesChain_iff {level : Nat} {s : Symbol} : closesChain level s = true ↔
    (s ≠ .lParen ∧ s ≠ .lBracket) ∧ ∀ op, s.binary? = some op → op.level < level := by
  rw [closesChain, Bool.and_eq_true, Bool.and_eq_true, bne_iff_ne, bne_iff_ne]
  refine and_congr_right fun _ => ?_
  cases s.binary? with
  | none => simp
  | some op => simp

theorem cases_of_closes {level : Nat} {rest : List Located} (h : closes level rest = true) :
    rest = [] ∨ ∃ s span more, rest = (.symbol s, span) :: more ∧ closesChain level s = true := by
  cases rest with
  | nil => exact .inl rfl
  | cons located more =>
      obtain ⟨token, span⟩ := located
      cases token with
      | symbol s => exact .inr ⟨s, span, more, rfl, h⟩
      | number _ => exact Bool.noConfusion h
      | text _ => exact Bool.noConfusion h
      | ident _ => exact Bool.noConfusion h

theorem closes_mono {level more : Nat} (h : level ≤ more) {rest : List Located}
    (closed : closes level rest = true) : closes more rest = true := by
  obtain rfl | ⟨s, span, behind, rfl, closed⟩ := cases_of_closes closed
  · rfl
  · obtain ⟨bracket, tight⟩ := closesChain_iff.mp closed
    exact closesChain_iff.mpr ⟨bracket, fun op found => Nat.lt_of_lt_of_le (tight op found) h⟩

theorem closes_of_ends {level : Nat} {rest : List Located} (h : ends rest = true) :
    closes level rest = true :=
  closes_mono (Nat.zero_le level) (Bool.and_eq_true_iff.mp h).1

theorem readSymbol_of_not_beginsWith {s : Symbol} {rest : List Located}
    (h : beginsWith s rest = false) : (readSymbol s rest).result = none := by
  cases rest with
  | nil => rfl
  | cons located more =>
      obtain ⟨token, span⟩ := located
      cases token with
      | symbol t =>
          rw [readSymbol, if_neg (beq_eq_false_iff_ne.mp h)]
          rfl
      | number _ => rfl
      | text _ => rfl
      | ident _ => rfl

theorem readSymbol_self (s : Symbol) (span : Span) (rest : List Located) :
    (readSymbol s ((.symbol s, span) :: rest)).result = some (span.stop, [], rest) := by
  rw [readSymbol, if_pos rfl]
  rfl

theorem not_beginsWith_of_closes {level : Nat} {rest : List Located}
    (h : closes level rest = true) :
    beginsWith .lParen rest = false ∧ beginsWith .lBracket rest = false := by
  obtain rfl | ⟨s, span, more, rfl, closed⟩ := cases_of_closes h
  · exact ⟨rfl, rfl⟩
  · obtain ⟨⟨paren, bracket⟩, -⟩ := closesChain_iff.mp closed
    exact ⟨beq_eq_false_iff_ne.mpr (Ne.symm paren), beq_eq_false_iff_ne.mpr (Ne.symm bracket)⟩

theorem operatorAt?_of_closes {level : Nat} {rest : List Located}
    (h : closes level rest = true) : operatorAt? level rest = none := by
  obtain rfl | ⟨s, span, more, rfl, closed⟩ := cases_of_closes h
  · rfl
  · obtain ⟨-, tight⟩ := closesChain_iff.mp closed
    have other : s.binary?.filter (fun op => op.level == level) = none := by
      refine Option.filter_eq_none_iff.mpr fun op found same => ?_
      exact absurd (tight op found) (by rw [eq_of_beq same]; exact Nat.lt_irrefl level)
    rw [operatorAt?, other]
    rfl

theorem operatorAt?_symbol {s : Symbol} {op : BinaryOp} (h : s.binary? = some op) (span : Span)
    (rest : List Located) :
    operatorAt? op.level ((.symbol s, span) :: rest) = some (op, rest) := by
  rw [operatorAt?, h]
  simp

/-- An operator ends the operand in front of it, which is tighter. -/
theorem closes_symbol {s : Symbol} {op : BinaryOp} (h : s.binary? = some op) (span : Span)
    (rest : List Located) : closes (op.level + 1) ((.symbol s, span) :: rest) = true := by
  refine closesChain_iff.mpr ⟨⟨?_, ?_⟩, fun other found => ?_⟩
  · rintro rfl
    simp [Symbol.binary?] at h
  · rintro rfl
    simp [Symbol.binary?] at h
  · rw [Option.some.inj (found.symm.trans h)]
    exact Nat.lt_succ_self _

/-- A reader that gets a result from tokens with whatever is behind them, if it does not continue
them and the fuel is enough for their number. -/
def Reads {α : Type} (read : Nat → List Located → Reading α) (cost : Nat)
    (follow : List Located → Bool) (ts : List Token) (x : α) : Prop :=
  ∀ (fuel : Nat) (tokens rest : List Located), tokens.map Prod.fst = ts →
    16 * ts.length + cost ≤ fuel → follow rest = true →
    (read fuel (tokens ++ rest)).result = some (x, [], rest)

-- The fuel drops by one from each reader to the next below it. A conditional is nine of them above an
-- atom, and a chain fewer the tighter it is; each token that is read pays for the whole way once more.
/-- Whether the reader of a part gets its tree from tokens. -/
def Part.IsRead : Part → List Token → Prop
  | .conditional e, ts => Reads readConditional 9 ends ts e
  | .chain level e, ts => Reads (readLevel · level) (8 - level) (closes level) ts e
  | .tail level left e, ts => Reads (readChain · level left) 0 (closes level) ts e
  | .unary e, ts => Reads readUnary 1 (closes 6) ts e
  | .atom e, ts => Reads readAtom 0 (closes 6) ts e
  | .arguments es, ts => Reads readArguments 10 (beginsWith .rParen) ts es

theorem split_at_symbol {tokens : List Located} (ts : List Token) {us : List Token}
    {s : Symbol} (h : tokens.map Prod.fst = ts ++ .symbol s :: us) :
    ∃ front span behind, tokens = front ++ (.symbol s, span) :: behind ∧
      front.map Prod.fst = ts ∧ behind.map Prod.fst = us := by
  obtain ⟨front, later, rfl, hfront, hlater⟩ := List.map_eq_append_iff.mp h
  obtain ⟨⟨token, span⟩, behind, rfl, htoken, hbehind⟩ := List.map_eq_cons_iff.mp hlater
  obtain rfl : token = .symbol s := htoken
  exact ⟨front, span, behind, rfl, hfront, hbehind⟩

theorem isRead_operators {e : Expr} {ts : List Token} (chain : (Part.chain 0 e).IsRead ts) :
    (Part.conditional e).IsRead ts := by
  intro fuel tokens rest located enough follow
  obtain ⟨fuel, rfl⟩ : ∃ less, fuel = less + 1 := ⟨fuel - 1, by omega⟩
  have read := chain fuel tokens rest located (by omega) (closes_of_ends follow)
  have choice : (readSymbol .question rest).result = none :=
    readSymbol_of_not_beginsWith (Bool.not_eq_true' _ ▸ (Bool.and_eq_true_iff.mp follow).2)
  rw [readConditional, result_andThen_of_some read,
    result_orElse_of_none (result_andThen_of_none choice _), result_done]

theorem isRead_choice {c t f : Expr} {ts us vs : List Token}
    (condition : (Part.chain 0 c).IsRead ts) (whenTrue : (Part.conditional t).IsRead us)
    (whenFalse : (Part.conditional f).IsRead vs) :
    (Part.conditional (.conditional c t f)).IsRead
      (ts ++ .symbol .question :: (us ++ .symbol .colon :: vs)) := by
  intro fuel tokens rest located enough follow
  obtain ⟨first, span, behind, rfl, hfirst, hbehind⟩ := split_at_symbol _ located
  obtain ⟨second, span', third, rfl, hsecond, hthird⟩ := split_at_symbol _ hbehind
  simp only [List.length_append, List.length_cons] at enough
  obtain ⟨fuel, rfl⟩ : ∃ less, fuel = less + 1 := ⟨fuel - 1, by omega⟩
  have readFirst := condition fuel first
    ((.symbol .question, span) :: (second ++ (.symbol .colon, span') :: (third ++ rest))) hfirst
    (by omega) rfl
  have readSecond := whenTrue fuel second ((.symbol .colon, span') :: (third ++ rest)) hsecond
    (by omega) rfl
  have readThird := whenFalse fuel third rest hthird (by omega) follow
  simp only [List.append_assoc, List.cons_append]
  rw [readConditional, result_andThen_of_some readFirst]
  apply result_orElse_of_some
  rw [result_andThen_of_some (readSymbol_self .question span _), result_andThen_of_some readSecond,
    result_andThen_of_some (readSymbol_self .colon span' _),
    result_map_of_some readThird (Expr.conditional c t)]

/-- Operators of a level end the tighter operand in front of them. -/
theorem closes_succ_of_tail {level : Nat} {left e : Expr} {ts : List Token}
    (more : Derives (.tail level left e) ts) {tokens rest : List Located}
    (located : tokens.map Prod.fst = ts) (follow : closes level rest = true) :
    closes (level + 1) (tokens ++ rest) = true := by
  cases more with
  | done =>
      obtain rfl := List.map_eq_nil_iff.mp located
      exact closes_mono (Nat.le_succ level) follow
  | operator binary same first more =>
      obtain ⟨front, span, behind, rfl, hfront, -⟩ := split_at_symbol [] located
      obtain rfl := List.map_eq_nil_iff.mp hfront
      exact same ▸ closes_symbol binary span _

theorem isRead_chain {level : Nat} {left e : Expr} {ts us : List Token} (loose : level ≤ 5)
    (first : (Part.chain (level + 1) left).IsRead ts) (derived : Derives (.tail level left e) us)
    (more : (Part.tail level left e).IsRead us) : (Part.chain level e).IsRead (ts ++ us) := by
  intro fuel tokens rest located enough follow
  obtain ⟨front, behind, rfl, hfront, hbehind⟩ := List.map_eq_append_iff.mp located
  simp only [List.length_append] at enough
  obtain ⟨fuel, rfl⟩ : ∃ less, fuel = less + 1 := ⟨fuel - 1, by omega⟩
  have readFirst := first fuel front (behind ++ rest) hfront (by omega)
    (closes_succ_of_tail derived hbehind follow)
  change (readLevel (fuel + 1) level _).result = _
  rw [List.append_assoc, readLevel, if_pos loose, result_andThen_of_some readFirst]
  exact more fuel behind rest hbehind (by omega) follow

theorem isRead_operand {e : Expr} {ts : List Token} (unary : (Part.unary e).IsRead ts) :
    (Part.chain 6 e).IsRead ts := by
  intro fuel tokens rest located enough follow
  obtain ⟨fuel, rfl⟩ : ∃ less, fuel = less + 1 := ⟨fuel - 1, by omega⟩
  change (readLevel (fuel + 1) 6 _).result = _
  rw [readLevel, if_neg (by decide)]
  exact unary fuel tokens rest located (by omega) follow

theorem isRead_done {level : Nat} {left : Expr} : (Part.tail level left left).IsRead [] := by
  intro fuel tokens rest located enough follow
  obtain rfl := List.map_eq_nil_iff.mp located
  cases fuel with
  | zero => rfl
  | succ fuel =>
      change (readChain (fuel + 1) level left rest).result = _
      rw [readChain, operatorAt?_of_closes follow]
      rfl

theorem isRead_operator {left right e : Expr} {s : Symbol} {op : BinaryOp} {ts us : List Token}
    (binary : s.binary? = some op) (first : (Part.chain (op.level + 1) right).IsRead ts)
    (derived : Derives (.tail op.level (.binary op left right) e) us)
    (more : (Part.tail op.level (.binary op left right) e).IsRead us) :
    (Part.tail op.level left e).IsRead (.symbol s :: (ts ++ us)) := by
  intro fuel tokens rest located enough follow
  obtain ⟨front, span, later, rfl, hfront, hlater⟩ := split_at_symbol [] located
  obtain rfl := List.map_eq_nil_iff.mp hfront
  obtain ⟨operand, behind, rfl, hoperand, hbehind⟩ := List.map_eq_append_iff.mp hlater
  simp only [List.length_append, List.length_cons] at enough
  obtain ⟨fuel, rfl⟩ : ∃ less, fuel = less + 1 := ⟨fuel - 1, by omega⟩
  have readRight := first fuel operand (behind ++ rest) hoperand (by omega)
    (closes_succ_of_tail derived hbehind follow)
  change (readChain (fuel + 1) op.level left
    ((.symbol s, span) :: (operand ++ behind ++ rest))).result = _
  rw [List.append_assoc, readChain, operatorAt?_symbol binary]
  simp only [readRight]
  rw [result_andThen_of_some readRight]
  exact more fuel behind rest hbehind (by omega) follow

/-- An atom does not begin with a prefix operator. -/
theorem atom_begins {e : Expr} {ts : List Token} (atom : Derives (.atom e) ts) :
    ∃ t more, ts = t :: more ∧ ∀ s op, t = .symbol s → s.unary? ≠ some op := by
  cases atom with
  | number n => exact ⟨_, _, rfl, fun s op h => nomatch h⟩
  | text s => exact ⟨_, _, rfl, fun s op h => nomatch h⟩
  | word name => exact ⟨_, _, rfl, fun s op h => nomatch h⟩
  | index key => exact ⟨_, _, rfl, fun s op h => nomatch h⟩
  | call builtin arguments => exact ⟨_, _, rfl, fun s op h => nomatch h⟩
  | group inner =>
      refine ⟨_, _, rfl, fun s op h => ?_⟩
      cases h
      simp [Symbol.unary?]

theorem isRead_bare {e : Expr} {ts : List Token} (derived : Derives (.atom e) ts)
    (atom : (Part.atom e).IsRead ts) : (Part.unary e).IsRead ts := by
  intro fuel tokens rest located enough follow
  obtain ⟨fuel, rfl⟩ : ∃ less, fuel = less + 1 := ⟨fuel - 1, by omega⟩
  have read := atom fuel tokens rest located (by omega) follow
  obtain ⟨t, more, rfl, plain⟩ := atom_begins derived
  obtain ⟨⟨token, span⟩, behind, rfl, same, -⟩ := List.map_eq_cons_iff.mp located
  obtain rfl : token = t := same
  change (readUnary (fuel + 1) ((token, span) :: (behind ++ rest))).result = _
  cases token with
  | symbol s =>
      have sign : s.unary? = none :=
        Option.eq_none_iff_forall_ne_some.mpr fun op => plain s op rfl
      simp only [readUnary, sign]
      exact read
  | number _ => exact read
  | text _ => exact read
  | ident _ => exact read

theorem isRead_signed {e : Expr} {s : Symbol} {op : UnaryOp} {ts : List Token}
    (sign : s.unary? = some op) (more : (Part.unary e).IsRead ts) :
    (Part.unary (.unary op e)).IsRead (.symbol s :: ts) := by
  intro fuel tokens rest located enough follow
  obtain ⟨front, span, behind, rfl, hfront, hbehind⟩ := split_at_symbol [] located
  obtain rfl := List.map_eq_nil_iff.mp hfront
  simp only [List.length_cons] at enough
  obtain ⟨fuel, rfl⟩ : ∃ less, fuel = less + 1 := ⟨fuel - 1, by omega⟩
  change (readUnary (fuel + 1) ((.symbol s, span) :: (behind ++ rest))).result = _
  simp only [readUnary, sign]
  exact result_map_of_some (more fuel behind rest hbehind (by omega) follow) _

theorem isRead_literal {v : Value} {t : Token}
    (reads : ∀ fuel span rest, readAtom (fuel + 1) ((t, span) :: rest) =
      .done (.literal v) [] rest) : (Part.atom (.literal v)).IsRead [t] := by
  intro fuel tokens rest located enough follow
  obtain ⟨fuel, rfl⟩ : ∃ less, fuel = less + 1 :=
    ⟨fuel - 1, by simp only [List.length_cons, List.length_nil] at enough; omega⟩
  obtain ⟨⟨_, span⟩, rfl, rfl⟩ := List.map_eq_singleton_iff.mp located
  exact congrArg Reading.result (reads fuel span rest)

theorem isRead_word (name : String) : (Part.atom (wordExpr name)).IsRead [.ident name] := by
  intro fuel tokens rest located enough follow
  obtain ⟨fuel, rfl⟩ : ∃ less, fuel = less + 1 :=
    ⟨fuel - 1, by simp only [List.length_cons, List.length_nil] at enough; omega⟩
  obtain ⟨⟨token, span⟩, rfl, same⟩ := List.map_eq_singleton_iff.mp located
  obtain rfl : token = .ident name := same
  obtain ⟨paren, bracket⟩ := not_beginsWith_of_closes follow
  change (readAtom (fuel + 1) ((.ident name, span) :: rest)).result = _
  rw [readAtom, result_orElse_of_none, result_orElse_of_none, result_done]
  · split
    · exact result_andThen_of_none (readSymbol_of_not_beginsWith bracket) _
    · rfl
  · exact result_andThen_of_none (readSymbol_of_not_beginsWith paren) _

theorem isRead_index (key : String) : (Part.atom (.index key)).IsRead
    [.ident "dict", .symbol .lBracket, .text key, .symbol .rBracket] := by
  intro fuel tokens rest located enough follow
  obtain ⟨fuel, rfl⟩ : ∃ less, fuel = less + 1 :=
    ⟨fuel - 1, by simp only [List.length_cons, List.length_nil] at enough; omega⟩
  obtain ⟨front, opening, later, rfl, hfront, hlater⟩ := split_at_symbol [_] located
  obtain ⟨quoted, closing, behind, rfl, hquoted, hbehind⟩ := split_at_symbol [_] hlater
  obtain ⟨⟨word, start⟩, rfl, hword⟩ := List.map_eq_singleton_iff.mp hfront
  obtain ⟨⟨text, place⟩, rfl, htext⟩ := List.map_eq_singleton_iff.mp hquoted
  obtain rfl : word = .ident "dict" := hword
  obtain rfl : text = .text key := htext
  obtain rfl := List.map_eq_nil_iff.mp hbehind
  rfl

theorem isRead_call {name : String} {f : Builtin} {es : List Expr} {ts : List Token}
    (builtin : Builtin.ofName? name = some f) (arguments : (Part.arguments es).IsRead ts) :
    (Part.atom (.call f es)).IsRead
      (.ident name :: .symbol .lParen :: (ts ++ [.symbol .rParen])) := by
  intro fuel tokens rest located enough follow
  obtain ⟨front, opening, later, rfl, hfront, hlater⟩ := split_at_symbol [_] located
  obtain ⟨inner, closing, behind, rfl, hinner, hbehind⟩ := split_at_symbol _ hlater
  obtain ⟨⟨word, start⟩, rfl, hword⟩ := List.map_eq_singleton_iff.mp hfront
  obtain rfl : word = .ident name := hword
  obtain rfl := List.map_eq_nil_iff.mp hbehind
  simp only [List.length_append, List.length_cons] at enough
  obtain ⟨fuel, rfl⟩ : ∃ less, fuel = less + 1 := ⟨fuel - 1, by omega⟩
  have read := arguments fuel inner ((.symbol .rParen, closing) :: rest) hinner (by omega) rfl
  simp only [List.append_assoc, List.cons_append, List.nil_append]
  rw [readAtom]
  apply result_orElse_of_some
  rw [result_andThen_of_some (readSymbol_self .lParen opening _), result_andThen_of_some read,
    result_andThen_of_some (readSymbol_self .rParen closing _), callExpr, builtin, result_done]

theorem isRead_group {e : Expr} {ts : List Token} (conditional : (Part.conditional e).IsRead ts) :
    (Part.atom e).IsRead (.symbol .lParen :: (ts ++ [.symbol .rParen])) := by
  intro fuel tokens rest located enough follow
  obtain ⟨front, opening, later, rfl, hfront, hlater⟩ := split_at_symbol [] located
  obtain ⟨inner, closing, behind, rfl, hinner, hbehind⟩ := split_at_symbol _ hlater
  obtain rfl := List.map_eq_nil_iff.mp hfront
  obtain rfl := List.map_eq_nil_iff.mp hbehind
  simp only [List.length_append, List.length_cons] at enough
  obtain ⟨fuel, rfl⟩ : ∃ less, fuel = less + 1 := ⟨fuel - 1, by omega⟩
  have read := conditional fuel inner ((.symbol .rParen, closing) :: rest) hinner (by omega) rfl
  simp only [List.append_assoc, List.cons_append, List.nil_append]
  rw [readAtom, result_andThen_of_some read,
    result_map_of_some (readSymbol_self .rParen closing _)]

theorem eq_of_beginsWith {s : Symbol} {rest : List Located} (h : beginsWith s rest = true) :
    ∃ span more, rest = (.symbol s, span) :: more := by
  cases rest with
  | nil => exact Bool.noConfusion h
  | cons located more =>
      obtain ⟨token, span⟩ := located
      cases token with
      | symbol t =>
          obtain rfl : s = t := eq_of_beq h
          exact ⟨span, more, rfl⟩
      | number _ => exact Bool.noConfusion h
      | text _ => exact Bool.noConfusion h
      | ident _ => exact Bool.noConfusion h

theorem ends_of_beginsWith_rParen {rest : List Located} (h : beginsWith .rParen rest = true) :
    ends rest = true := by
  obtain ⟨span, more, rfl⟩ := eq_of_beginsWith h
  rfl

theorem not_beginsWith_comma_of_rParen {rest : List Located}
    (h : beginsWith .rParen rest = true) : beginsWith .comma rest = false := by
  obtain ⟨span, more, rfl⟩ := eq_of_beginsWith h
  rfl

theorem result_readUnary_rParen (fuel : Nat) (span : Span) (more : List Located) :
    (readUnary fuel ((.symbol .rParen, span) :: more)).result = none := by
  cases fuel with
  | zero => rfl
  | succ fuel => cases fuel <;> rfl

theorem result_readLevel_rParen (fuel level : Nat) (span : Span) (more : List Located) :
    (readLevel fuel level ((.symbol .rParen, span) :: more)).result = none := by
  induction fuel generalizing level with
  | zero => rfl
  | succ fuel ih =>
      rw [readLevel]
      split
      · exact result_andThen_of_none (ih (level + 1)) _
      · exact result_readUnary_rParen fuel span more

theorem result_readConditional_rParen (fuel : Nat) (span : Span) (more : List Located) :
    (readConditional fuel ((.symbol .rParen, span) :: more)).result = none := by
  cases fuel with
  | zero => rfl
  | succ fuel =>
      rw [readConditional]
      exact result_andThen_of_none (result_readLevel_rParen fuel 0 span more) _

theorem isRead_noArgument : (Part.arguments []).IsRead [] := by
  intro fuel tokens rest located enough follow
  obtain rfl := List.map_eq_nil_iff.mp located
  obtain ⟨fuel, rfl⟩ : ∃ less, fuel = less + 1 := ⟨fuel - 1, by omega⟩
  obtain ⟨span, more, rfl⟩ := eq_of_beginsWith follow
  rw [List.nil_append, readArguments, result_orElse_of_none, result_done]
  exact result_andThen_of_none (result_readConditional_rParen fuel span more) _

theorem isRead_lastArgument {e : Expr} {ts : List Token}
    (conditional : (Part.conditional e).IsRead ts) : (Part.arguments [e]).IsRead ts := by
  intro fuel tokens rest located enough follow
  obtain ⟨fuel, rfl⟩ : ∃ less, fuel = less + 1 := ⟨fuel - 1, by omega⟩
  have read := conditional fuel tokens rest located (by omega) (ends_of_beginsWith_rParen follow)
  have comma : (readSymbol .comma rest).result = none :=
    readSymbol_of_not_beginsWith (not_beginsWith_comma_of_rParen follow)
  rw [readArguments]
  apply result_orElse_of_some
  rw [result_andThen_of_some read, result_orElse_of_none (result_andThen_of_none comma _),
    result_done]

theorem isRead_argument {e : Expr} {es : List Expr} {ts us : List Token}
    (conditional : (Part.conditional e).IsRead ts) (arguments : (Part.arguments es).IsRead us) :
    (Part.arguments (e :: es)).IsRead (ts ++ .symbol .comma :: us) := by
  intro fuel tokens rest located enough follow
  obtain ⟨front, span, behind, rfl, hfront, hbehind⟩ := split_at_symbol _ located
  simp only [List.length_append, List.length_cons] at enough
  obtain ⟨fuel, rfl⟩ : ∃ less, fuel = less + 1 := ⟨fuel - 1, by omega⟩
  have readFirst := conditional fuel front ((.symbol .comma, span) :: (behind ++ rest)) hfront
    (by omega) rfl
  have readMore := arguments fuel behind rest hbehind (by omega) follow
  rw [List.append_assoc, List.cons_append, readArguments]
  apply result_orElse_of_some
  rw [result_andThen_of_some readFirst]
  apply result_orElse_of_some
  rw [result_andThen_of_some (readSymbol_self .comma span _), result_map_of_some readMore]

/-- Every part that the grammar derives is read as its tree. -/
theorem Derives.isRead {p : Part} {ts : List Token} (derived : Derives p ts) : p.IsRead ts := by
  -- Parts of all kinds at once: what continues a part differs from kind to kind, and `IsRead` carries
  -- it through the induction.
  induction derived with
  | operators _ chain => exact isRead_operators chain
  | choice _ _ _ condition whenTrue whenFalse => exact isRead_choice condition whenTrue whenFalse
  | chain loose _ derived first more => exact isRead_chain loose first derived more
  | operand _ unary => exact isRead_operand unary
  | done => exact isRead_done
  | operator binary same _ derived first more =>
      subst same
      exact isRead_operator binary first derived more
  | bare derived atom => exact isRead_bare derived atom
  | signed sign _ rest => exact isRead_signed sign rest
  | number n => exact isRead_literal fun _ _ _ => rfl
  | text s => exact isRead_literal fun _ _ _ => rfl
  | word name => exact isRead_word name
  | index key => exact isRead_index key
  | call builtin _ arguments => exact isRead_call builtin arguments
  | group _ inner => exact isRead_group inner
  | noArgument => exact isRead_noArgument
  | lastArgument _ last => exact isRead_lastArgument last
  | argument _ _ first more => exact isRead_argument first more

/-- Tokens that the grammar derives as a formula are read as that formula. -/
theorem ofTokens_of_derives {e : Expr} {ts : List Token} (derived : Derives (.conditional e) ts)
    {tokens : List Located} (located : tokens.map Prod.fst = ts) (length : Nat) :
    ofTokens length tokens = .ok e := by
  have count : ts.length = tokens.length := by rw [← located, List.length_map]
  have read := derived.isRead (16 * (tokens.length + 1)) tokens [] located (by omega) rfl
  rw [List.append_nil] at read
  simp only [ofTokens, read]

end CharacterRules.Formula
