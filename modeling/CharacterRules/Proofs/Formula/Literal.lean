import CharacterRules.Proofs.Formula.Soundness
import CharacterRules.Proofs.Prerequisite.Equality
import CharacterRules.Proofs.Unicode.Case

/-!
What formulas are made of. A numeral is neither negative nor not-a-number, a name is one whole name,
and the words for true and false are numbers. As only not-a-number differs from itself, a formula that
has been read equals itself, and with it the rules that carry it.
-/

namespace CharacterRules

namespace Number

/-- Whether a number, which may be a zero or infinite, has the given sign. -/
def hasSign (negative : Bool) : Number → Bool
  | .nan => false
  | .infinity n => n == negative
  | .finite n _ _ _ => n == negative

theorem isNaN_of_hasSign {negative : Bool} {x : Number} (h : x.hasSign negative = true) :
    x.isNaN = false := by
  cases x with
  | nan => cases h
  | infinity n => rfl
  | finite n m e normal => rfl

theorem hasSign_ofParts (negative : Bool) (m : Nat) (e : Int) :
    (ofParts negative m e).hasSign negative = true := by
  rw [ofParts]
  split <;> exact BEq.rfl

theorem hasSign_roundDyadic (negative : Bool) (n : Nat) (e : Int) (inexact : Bool) :
    (roundDyadic negative n e inexact).hasSign negative = true := by
  rw [roundDyadic]
  dsimp only
  split <;> exact hasSign_ofParts ..

theorem hasSign_ofDecimal (negative : Bool) (digits width : Nat) (exponent : Int) :
    (ofDecimal negative digits width exponent).hasSign negative = true := by
  simp only [ofDecimal]
  split
  · exact BEq.rfl
  · split
    · exact BEq.rfl
    · split
      · exact BEq.rfl
      · split <;> exact hasSign_roundDyadic ..

theorem hasSign_of_readUnsigned? {negative : Bool} {text : List Char} {x : Number}
    (h : readUnsigned? negative text = some x) : x.hasSign negative = true := by
  have number : ∀ {digits width : Nat} {exponent? : Option Int} {point : Int → Int},
      (if width = 0 then none else
        exponent?.map fun exponent => ofDecimal negative digits width (point exponent)) = some x →
      x.hasSign negative = true := by
    intro digits width exponent? point h
    split at h
    · cases h
    · obtain ⟨exponent, -, rfl⟩ := Option.map_eq_some_iff.mp h
      exact hasSign_ofDecimal ..
  delta readUnsigned? at h
  dsimp only at h
  split at h <;> exact number h

/-- Whether a numeral may begin with a character. -/
def beginsNumeral (c : Char) : Bool := c.isDigit || c == '.'

theorem beginsNumeral_cases {c : Char} (h : beginsNumeral c = true) :
    c ≠ '+' ∧ c ≠ '-' ∧ c.toLower ≠ 'n' := by
  rw [beginsNumeral, Bool.or_eq_true, beq_iff_eq] at h
  obtain digit | rfl := h
  · exact Unicode.of_isDigit (P := fun c => c ≠ '+' ∧ c ≠ '-' ∧ c.toLower ≠ 'n')
      (by decide) digit
  · decide

/-- A numeral is no word for not-a-number, and it is not negative. -/
theorem hasSign_of_ofText? {c : Char} {rest : List Char} (first : beginsNumeral c = true)
    {x : Number} (h : ofText? (String.ofList (c :: rest)) = some x) : x.hasSign false = true := by
  obtain ⟨plus, minus, letter⟩ := beginsNumeral_cases first
  have sign : readSign (c :: rest) = (false, c :: rest) := by
    rw [readSign]
    · exact fun _ => by simp [plus]
    · exact fun _ => by simp [minus]
  simp only [ofText?, String.toList_ofList, sign] at h
  split at h
  · cases h
    rfl
  · cases h
    rfl
  · rename_i word
    have chars := congrArg String.toList word
    rw [String.toList_ofList, List.map_cons] at chars
    exact absurd (List.cons.inj chars).1 letter
  · exact hasSign_of_readUnsigned? h

end Number

/-- Whether a token can be written: a number without a sign, or a whole name. -/
def Token.IsWritten : Token → Prop
  | .number n => n.hasSign false = true
  | .ident name => Formula.isName name.toList = true
  | .text _ | .symbol _ => True

namespace Expr

mutual

/-- Whether an expression can be written: its numbers have no sign of their own, and its names are
whole names but not those of the truth values. -/
def IsWritten : Expr → Prop
  | .literal (.number n) => n.hasSign false = true
  | .literal (.text _) => True
  | .ident name => Formula.isName name.toList = true ∧ name ≠ "true" ∧ name ≠ "false"
  | .index _ => True
  | .unary _ e => e.IsWritten
  | .binary _ l r => l.IsWritten ∧ r.IsWritten
  | .call _ es => AreWritten es
  | .conditional c t e => c.IsWritten ∧ t.IsWritten ∧ e.IsWritten

/-- Whether a list of expressions can be written. -/
def AreWritten : List Expr → Prop
  | [] => True
  | e :: rest => e.IsWritten ∧ AreWritten rest

end

mutual

theorem equals_self : ∀ {e : Expr}, e.IsWritten → e.equals e = true
  | .literal (.number n), h => Number.beq_self_iff.mpr (Number.isNaN_of_hasSign h)
  | .literal (.text s), _ => show (s == s) = true from BEq.rfl
  | .ident name, _ => show (name == name) = true from BEq.rfl
  | .index key, _ => show (key == key) = true from BEq.rfl
  | .unary op e, h => by
      have operand : e.IsWritten := h
      simp only [equals, equals_self operand, BEq.rfl, Bool.and_self]
  | .binary op l r, h => by
      simp only [equals, equals_self h.1, equals_self h.2, BEq.rfl, Bool.and_self]
  | .call f es, h => by simp only [equals, equalsAll_self h, BEq.rfl, Bool.and_self]
  | .conditional c t e, h => by
      simp only [equals, equals_self h.1, equals_self h.2.1, equals_self h.2.2, Bool.and_self]

theorem equalsAll_self : ∀ {es : List Expr}, AreWritten es → equalsAll es es = true
  | [], _ => rfl
  | e :: rest, h => by
      simp only [equalsAll, equals_self h.1, equalsAll_self h.2, Bool.and_self]

end

end Expr

namespace Formula

theorem hasSign_numeral {c : Char} (first : Number.beginsNumeral c = true) (rest : List Char) :
    (numeral (c :: rest)).hasSign false = true := by
  rw [numeral]
  cases h : Number.ofText? (String.ofList (c :: rest)) with
  | none => rfl
  | some x => exact Number.hasSign_of_ofText? first h

theorem nameLength_take (text : List Char) :
    nameLength (text.take (nameLength text)) = nameLength text ∧
      nameLength text ≤ text.length := by
  fun_induction nameLength text with
  | case1 => exact ⟨rfl, Nat.le_refl 0⟩
  | case2 c part => exact ⟨by simp [nameLength, part], Nat.le_refl 1⟩
  | case3 c => exact ⟨rfl, Nat.zero_le _⟩
  | case4 c d rest part ih =>
      refine ⟨?_, Nat.succ_le_succ ih.2⟩
      rw [List.take_succ_cons]
      cases length : nameLength (d :: rest) with
      | zero => simp [nameLength, part]
      | succ n =>
          rw [length, List.take_succ_cons] at ih
          rw [List.take_succ_cons, nameLength, if_pos part, ih.1]
  | case5 c d rest part joins ih =>
      refine ⟨?_, by simpa using ih.2⟩
      rw [List.take_succ_cons, List.take_succ_cons, nameLength, if_neg part, if_pos joins, ih.1]
  | case6 c d rest part joins => exact ⟨rfl, Nat.zero_le _⟩

theorem isWritten_of_lexeme {c : Char} {rest : List Char} {t : Token}
    (h : (lexeme c rest).1 = some t) : t.IsWritten := by
  rw [lexeme] at h
  split at h
  · rename_i start
    cases h
    obtain ⟨whole, bound⟩ := nameLength_take rest
    show isName (String.ofList (c :: rest.take (nameLength rest))).toList = true
    rw [String.toList_ofList, isName, start, whole, List.length_take_of_le bound]
    exact beq_self_eq_true _
  · split at h
    · rename_i digit
      cases h
      exact hasSign_numeral (by simp [Number.beginsNumeral, digit]) _
    · split at h
      · rename_i point
        cases h
        exact hasSign_numeral (by simp_all [Number.beginsNumeral]) _
      · split at h
        · dsimp only at h
          split at h
          · cases h
            trivial
          · cases h
        · split at h
          · cases h
            trivial
          · cases h

theorem isWritten_of_mem_lexFrom {start : Nat} {text : List Char} {l : Lexeme}
    (h : l ∈ lexFrom start text) {t : Token} (found : l.token = some t) : t.IsWritten := by
  fun_induction lexFrom start text with
  | case1 => cases h
  | case2 start c rest blank ih => exact ih h
  | case3 start c rest visible token length begins text stop ih =>
      cases List.mem_cons.mp h with
      | inl own =>
          obtain rfl := own
          exact isWritten_of_lexeme (by rw [begins]; exact found)
      | inr later => exact ih later

/-- Whether what a part stands for can be written. -/
def Part.IsWritten : Part → Prop
  | .conditional e | .chain _ e | .unary e | .atom e => e.IsWritten
  | .tail _ left e => left.IsWritten → e.IsWritten
  | .arguments es => Expr.AreWritten es

theorem isWritten_wordExpr {name : String} (h : isName name.toList = true) :
    (wordExpr name).IsWritten := by
  rw [wordExpr]
  split
  · rfl
  · rename_i positive
    split
    · rfl
    · rename_i negative
      exact ⟨h, fun same => positive (beq_iff_eq.mpr same),
        fun same => negative (beq_iff_eq.mpr same)⟩

/-- What written tokens derive can be written. -/
theorem Derives.isWritten {p : Part} {ts : List Token} (derived : Derives p ts)
    (written : ∀ t ∈ ts, t.IsWritten) : p.IsWritten := by
  induction derived with
  | operators _ chain => exact chain written
  | choice _ _ _ condition whenTrue whenFalse =>
      simp only [List.forall_mem_append, List.forall_mem_cons] at written
      exact ⟨condition written.1, whenTrue written.2.2.1, whenFalse written.2.2.2.2⟩
  | chain _ _ _ first more =>
      rw [List.forall_mem_append] at written
      exact more written.2 (first written.1)
  | operand _ unary => exact unary written
  | done => exact id
  | operator _ _ _ _ first more =>
      rw [List.forall_mem_cons, List.forall_mem_append] at written
      exact fun left => more written.2.2 ⟨left, first written.2.1⟩
  | bare _ atom => exact atom written
  | signed _ _ rest => exact rest (List.forall_mem_cons.mp written).2
  | number n => exact written _ (.head _)
  | text s => trivial
  | word name => exact isWritten_wordExpr (written _ (.head _))
  | index key => trivial
  | call _ _ arguments =>
      simp only [List.forall_mem_cons, List.forall_mem_append] at written
      exact arguments written.2.2.1
  | group _ inner =>
      rw [List.forall_mem_cons, List.forall_mem_append] at written
      exact inner written.2.1
  | noArgument => trivial
  | lastArgument _ last => exact ⟨last written, trivial⟩
  | argument _ _ first more =>
      simp only [List.forall_mem_append, List.forall_mem_cons] at written
      exact ⟨first written.1, more written.2.2⟩

/-- A formula that has been read can be written. -/
theorem isWritten_of_parse {text : String} {e : Expr} (h : parse text = .ok e) : e.IsWritten := by
  obtain ⟨ts, tokens, derived⟩ := derives_of_parse h
  refine derived.isWritten fun t member => ?_
  have lexed : some t ∈ (lex text).map Lexeme.token := tokens ▸ List.mem_map_of_mem member
  obtain ⟨l, found, same⟩ := List.mem_map.mp lexed
  exact isWritten_of_mem_lexFrom found same

/-- A formula that has been read equals itself. -/
theorem beq_self_of_parse {text : String} {e : Expr} (h : parse text = .ok e) : (e == e) = true :=
  Expr.equals_self (isWritten_of_parse h)

end Formula
end CharacterRules
