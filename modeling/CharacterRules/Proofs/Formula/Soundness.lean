import CharacterRules.Proofs.Formula.Division
import Mathlib.Logic.Basic

/-!
The reader's soundness for the grammar: what is read without a fault is derived by the tokens that
the reader has taken. With the completeness of the reader, formula text is read as exactly the tree
that the grammar derives from its tokens, and no tokens derive two trees.
-/

namespace CharacterRules.Formula

namespace Reading

variable {α β : Type} {P : List Token → α → Prop} {Q : List Token → β → Prop}
  {tokens : List Located}

/-- Whether what is read without a fault has a property together with the tokens taken for it. -/
def Takes (r : Reading α) (tokens : List Located) (P : List Token → α → Prop) : Prop :=
  ∀ x rest, r.result = some (x, [], rest) →
    ∃ front, tokens = front ++ rest ∧ P (front.map Prod.fst) x

theorem takes_stop : (stop tokens : Reading α).Takes tokens P := nofun

theorem takes_done {x : α} (h : P [] x) (faults : List SyntaxFault) :
    (done x faults tokens).Takes tokens P := by
  rintro _ _ ⟨⟩
  exact ⟨[], rfl, h⟩

theorem takes_one {x : α} {located : Located} (h : P [located.1] x) :
    (done x [] tokens).Takes (located :: tokens) P := by
  rintro _ _ ⟨⟩
  exact ⟨[located], rfl, h⟩

theorem Takes.andThen {r : Reading α} (h : r.Takes tokens P)
    {next : α → List Located → Reading β}
    (later : ∀ x us rest, P us x → (next x rest).Takes rest fun vs => Q (us ++ vs)) :
    (r.andThen next).Takes tokens Q := by
  intro y rest read
  rw [Reading.andThen] at read
  split at read
  · cases read
  · rename_i x faults behind found
    obtain ⟨⟨z, more, last⟩, continued, same⟩ := Option.map_eq_some_iff.mp read
    simp only [Prod.mk.injEq, List.append_eq_nil_iff] at same
    obtain ⟨rfl, ⟨rfl, rfl⟩, rfl⟩ := same
    obtain ⟨front, rfl, taken⟩ := h x behind found
    obtain ⟨second, rfl, whole⟩ := later x _ behind taken z last continued
    exact ⟨front ++ second, (List.append_assoc ..).symm, by rwa [List.map_append]⟩

theorem Takes.orElse {r : Reading α} (h : r.Takes tokens P) {other : Unit → Reading α}
    (h' : (other ()).Takes tokens P) : (r.orElse other).Takes tokens P := by
  intro x rest read
  rw [Reading.orElse] at read
  split at read
  · exact h x rest read
  · exact h' x rest read

theorem Takes.map {r : Reading α} (h : r.Takes tokens P) {f : α → β}
    (image : ∀ ts x, P ts x → Q ts (f x)) : (r.map f).Takes tokens Q := by
  intro y rest read
  obtain ⟨⟨x, faults, behind⟩, found, same⟩ := Option.map_eq_some_iff.mp read
  simp only [Prod.mk.injEq] at same
  obtain ⟨rfl, rfl, rfl⟩ := same
  obtain ⟨front, rfl, taken⟩ := h x behind found
  exact ⟨front, rfl, image _ _ taken⟩

theorem Takes.cons {r : Reading α} {located : Located}
    (h : r.Takes tokens fun ts => P (located.1 :: ts)) : r.Takes (located :: tokens) P := by
  intro x rest read
  obtain ⟨front, rfl, taken⟩ := h x rest read
  exact ⟨located :: front, rfl, taken⟩

end Reading

open Reading

theorem takes_readSymbol (s : Symbol) (tokens : List Located) :
    (readSymbol s tokens).Takes tokens fun ts _ => ts = [.symbol s] := by
  rw [readSymbol.eq_def]
  split
  · split
    · rename_i same
      exact takes_one (congrArg (fun t => [Token.symbol t]) same.symm)
    · exact takes_stop
  · exact takes_stop

theorem takes_readQuoted (tokens : List Located) :
    (readQuoted tokens).Takes tokens fun ts key => ts = [.text key] := by
  rw [readQuoted.eq_def]
  split
  · exact takes_one rfl
  · exact takes_stop

theorem exists_of_operatorAt? {level : Nat} {tokens rest : List Located} {op : BinaryOp}
    (h : operatorAt? level tokens = some (op, rest)) :
    ∃ s span, tokens = (.symbol s, span) :: rest ∧ s.binary? = some op ∧ op.level = level := by
  rw [operatorAt?.eq_def] at h
  split at h
  · rename_i s span behind
    obtain ⟨op', found, same⟩ := Option.map_eq_some_iff.mp h
    cases same
    obtain ⟨binary, tight⟩ := Option.filter_eq_some_iff.mp found
    exact ⟨s, span, rfl, binary, eq_of_beq tight⟩
  · cases h

theorem takes_callExpr (name : String) (start stop : Nat) (arguments : List Expr)
    (rest : List Located) : (callExpr name start arguments stop rest).Takes rest fun ts e =>
      ts = [] ∧ ∃ f, Builtin.ofName? name = some f ∧ e = .call f arguments := by
  rw [callExpr]
  split
  · rename_i f builtin
    exact takes_done ⟨rfl, f, builtin, rfl⟩ []
  · rintro _ _ ⟨⟩

mutual

theorem takes_readConditional : ∀ (fuel : Nat) (tokens : List Located),
    (readConditional fuel tokens).Takes tokens fun ts e => Derives (.conditional e) ts
  | 0, _ => takes_stop
  | fuel + 1, tokens => by
      rw [readConditional]
      refine (takes_readLevel fuel (Nat.zero_le 6) tokens).andThen fun c ts rest hc => ?_
      refine .orElse ?_ (takes_done (by rw [List.append_nil]; exact .operators hc) [])
      refine (takes_readSymbol .question rest).andThen fun _ _ rest mark => ?_
      refine (takes_readConditional fuel rest).andThen fun t us rest ht => ?_
      refine (takes_readSymbol .colon rest).andThen fun _ _ rest colon => ?_
      refine (takes_readConditional fuel rest).map fun vs f hf => ?_
      subst mark colon
      simpa only [List.singleton_append] using Derives.choice hc ht hf

theorem takes_readLevel : ∀ (fuel : Nat) {level : Nat} (_ : level ≤ 6) (tokens : List Located),
    (readLevel fuel level tokens).Takes tokens fun ts e => Derives (.chain level e) ts
  | 0, _, _, _ => takes_stop
  | fuel + 1, level, bound, tokens => by
      rw [readLevel]
      split
      · rename_i loose
        refine (takes_readLevel fuel (by omega) tokens).andThen fun left ts rest hl => ?_
        intro e behind read
        obtain ⟨front, rfl, more⟩ := takes_readChain fuel loose left rest e behind read
        exact ⟨front, rfl, .chain loose hl more⟩
      · obtain rfl : level = 6 := by omega
        intro e rest read
        obtain ⟨front, rfl, unary⟩ := takes_readUnary fuel tokens e rest read
        exact ⟨front, rfl, .operand unary⟩

theorem takes_readChain : ∀ (fuel : Nat) {level : Nat} (_ : level ≤ 5) (left : Expr)
    (tokens : List Located),
    (readChain fuel level left tokens).Takes tokens fun ts e => Derives (.tail level left e) ts
  | 0, _, _, _, _ => takes_done .done []
  | fuel + 1, level, loose, left, tokens => by
      rw [readChain]
      split
      · rename_i op rest found
        obtain ⟨s, span, rfl, binary, same⟩ := exists_of_operatorAt? found
        dsimp only
        split
        · refine .cons ?_
          refine (takes_readLevel fuel (by omega) rest).andThen fun right ts rest hr => ?_
          intro e behind read
          obtain ⟨front, rfl, more⟩ := takes_readChain fuel loose _ rest e behind read
          exact ⟨front, rfl, .operator binary same hr more⟩
        · rintro _ _ ⟨⟩
          exact ⟨[], rfl, .done⟩
      · exact takes_done .done []

theorem takes_readUnary : ∀ (fuel : Nat) (tokens : List Located),
    (readUnary fuel tokens).Takes tokens fun ts e => Derives (.unary e) ts
  | 0, _ => takes_stop
  | fuel + 1, tokens => by
      have bare : (readAtom fuel tokens).Takes tokens fun ts e => Derives (.unary e) ts := by
        intro e rest read
        obtain ⟨front, rfl, atom⟩ := takes_readAtom fuel tokens e rest read
        exact ⟨front, rfl, .bare atom⟩
      rw [readUnary.eq_def]
      dsimp only
      split
      · split
        · rename_i s span rest _ op sign
          exact .cons ((takes_readUnary fuel rest).map fun ts e he => .signed sign he)
        · exact bare
      · exact bare

theorem takes_readAtom : ∀ (fuel : Nat) (tokens : List Located),
    (readAtom fuel tokens).Takes tokens fun ts e => Derives (.atom e) ts
  | 0, _ => takes_stop
  | fuel + 1, tokens => by
      rw [readAtom.eq_def]
      dsimp only
      split
      · exact takes_one (.number _)
      · exact takes_one (.text _)
      · rename_i name span rest
        refine .orElse (.cons ?_) (.orElse (.cons ?_) (takes_one (.word name)))
        -- a name is a call, a lookup or a word, in the order in which the reader tries them
        · refine (takes_readSymbol .lParen rest).andThen fun _ _ rest opening => ?_
          refine (takes_readArguments fuel rest).andThen fun arguments ts rest ha => ?_
          refine (takes_readSymbol .rParen rest).andThen fun stop _ rest closing => ?_
          intro e behind read
          obtain ⟨front, rfl, nothing, f, builtin, rfl⟩ := takes_callExpr _ _ _ _ _ e behind read
          refine ⟨front, rfl, ?_⟩
          subst opening closing
          simpa only [nothing, List.append_nil, List.singleton_append] using
            Derives.call builtin ha
        · split
          · rename_i dict
            refine (takes_readSymbol .lBracket rest).andThen fun _ _ rest opening => ?_
            refine (takes_readQuoted rest).andThen fun key _ rest quoted => ?_
            refine (takes_readSymbol .rBracket rest).map fun _ _ closing => ?_
            subst opening quoted closing
            obtain rfl := eq_of_beq dict
            exact .index key
          · exact takes_stop
      · rename_i span rest
        refine .cons ((takes_readConditional fuel rest).andThen fun inner ts rest hi => ?_)
        refine (takes_readSymbol .rParen rest).map fun _ _ closing => ?_
        subst closing
        exact .group hi
      · exact takes_stop

theorem takes_readArguments : ∀ (fuel : Nat) (tokens : List Located),
    (readArguments fuel tokens).Takes tokens fun ts es => Derives (.arguments es) ts
  | 0, _ => takes_stop
  | fuel + 1, tokens => by
      rw [readArguments]
      refine .orElse ?_ (takes_done .noArgument [])
      refine (takes_readConditional fuel tokens).andThen fun first ts rest he => ?_
      refine .orElse ?_ (takes_done (by rw [List.append_nil]; exact .lastArgument he) [])
      refine (takes_readSymbol .comma rest).andThen fun _ _ rest comma => ?_
      refine (takes_readArguments fuel rest).map fun us more hm => ?_
      subst comma
      exact .argument he hm

end

/-- Tokens that are read as a formula derive it. -/
theorem derives_of_ofTokens {length : Nat} {tokens : List Located} {e : Expr}
    (h : ofTokens length tokens = .ok e) : Derives (.conditional e) (tokens.map Prod.fst) := by
  simp only [ofTokens] at h
  split at h
  · rename_i read
    cases h
    obtain ⟨front, whole, derived⟩ := takes_readConditional _ tokens e [] read
    rwa [whole, List.append_nil]
  · cases h
  · cases h
  · cases h

theorem tokens_of_faultless {lexemes : List Lexeme}
    (h : (lexemes.filterMap fun l => if l.token.isNone then
      some (⟨l.span, .unexpectedText l.text⟩ : SyntaxFault) else none) = []) :
    lexemes.map Lexeme.token =
      ((lexemes.filterMap fun l => l.token.map (·, l.span)).map Prod.fst).map some := by
  induction lexemes with
  | nil => rfl
  | cons l rest ih =>
      obtain ⟨token, text, span⟩ := l
      cases token with
      | none => cases h
      | some t => exact congrArg (some t :: ·) (ih h)

/-- Formula text that is read consists of tokens that derive what it is read as. -/
theorem derives_of_parse {text : String} {e : Expr} (h : parse text = .ok e) :
    ∃ ts, (lex text).map Lexeme.token = ts.map some ∧ Derives (.conditional e) ts := by
  rcases ite_eq_iff.mp h with ⟨faultless, read⟩ | ⟨-, ⟨⟩⟩
  exact ⟨_, tokens_of_faultless (List.isEmpty_iff.mp faultless), derives_of_ofTokens read⟩

/-- No tokens derive two formulas, as the reader takes either for the one that it finds. -/
theorem Derives.unique {ts : List Token} {e f : Expr} (he : Derives (.conditional e) ts)
    (hf : Derives (.conditional f) ts) : e = f := by
  have located : (ts.map fun t => (t, (⟨0, 0⟩ : Span))).map Prod.fst = ts := by
    rw [List.map_map]
    exact List.map_id ts
  have first := ofTokens_of_derives he located 0
  exact Except.ok.inj (first.symm.trans (ofTokens_of_derives hf located 0))

/-- Formula text is read as the one tree that the grammar derives from its tokens; in any other case
the reading fails. -/
theorem parse_eq_ok_iff_derives :
    (∀ text e, parse text = .ok e ↔
      ∃ ts, (lex text).map Lexeme.token = ts.map some ∧ Derives (.conditional e) ts) ∧
    ∀ ts e f, Derives (.conditional e) ts → Derives (.conditional f) ts → e = f := by
  refine ⟨fun text e => ⟨derives_of_parse, ?_⟩, fun ts e f => Derives.unique⟩
  rintro ⟨ts, tokens, derived⟩
  exact parse_of_lexes tokens derived

/-- The tokens of two subtractions in a row. -/
def subtractions : List Token :=
  [.number 8, .symbol .minus, .number 3, .symbol .minus, .number 2]

/-- Subtractions group to the left, and they do not group to the right as well. -/
theorem parse_subtractions :
    parse "8 - 3 - 2" = .ok (.binary .sub
      (.binary .sub (.literal (.number 8)) (.literal (.number 3))) (.literal (.number 2))) ∧
    ¬Derives (.conditional (.binary .sub (.literal (.number 8))
      (.binary .sub (.literal (.number 3)) (.literal (.number 2))))) subtractions := by
  have operand : ∀ n, Derives (.chain 5 (.literal (.number n))) [.number n] := fun n =>
    .chain_of_atom (.number n) (by decide)
  have derived : Derives (.conditional (.binary .sub
      (.binary .sub (.literal (.number 8)) (.literal (.number 3))) (.literal (.number 2))))
      subtractions := by
    have minus : Symbol.binary? .minus = some .sub := rfl
    refine .operators (.loosen (Nat.zero_le 4) (by decide) ?_)
    exact .chain (by decide) (operand 8)
      (.operator minus rfl (operand 3) (.operator minus rfl (operand 2) .done))
  refine ⟨(parse_eq_ok_iff_derives.1 _ _).mpr ⟨_, by decide +kernel, derived⟩, fun other => ?_⟩
  have same := parse_eq_ok_iff_derives.2 _ _ _ other derived
  simp at same

end CharacterRules.Formula
