import CharacterRules.Proofs.Formula.Division
import CharacterRules.Ruleset.Ability

/-!
The formulas that are put together from names: the text of a roll with the key of its modifier
between quotes, and differences of attributes. If the names fit where they are put, the text is read
as the formula it should be.
-/

namespace CharacterRules

open Formula

namespace Ability

/-- The tokens of the attribute under a key. -/
def indexTokens (key : String) : List Token :=
  [.ident "dict", .symbol .lBracket, .text key, .symbol .rBracket]

/-- The tokens of the formula of a roll with the modifier under a key. -/
def rollTokens (key : String) : List Token :=
  ([.text "d", .symbol .plus, .ident "source", .symbol .plus, .symbol .lParen] : List Token) ++
    (indexTokens key ++
    (([.symbol .gt, .number 0, .symbol .question, .text "+", .symbol .plus] : List Token) ++
    (indexTokens key ++ (([.symbol .colon] : List Token) ++
    (indexTokens key ++ (([.symbol .lt, .number 0, .symbol .question] : List Token) ++
    (indexTokens key ++ ([.symbol .colon, .text "", .symbol .rParen] : List Token))))))))

/-- The formula of a roll with the modifier under a key. -/
def rollExpr (key : String) : Expr :=
  let modifier := Expr.index key
  .binary .add (.binary .add (.literal (.text "d")) (.ident "source"))
    (.conditional (.binary .gt modifier (.literal (.number 0)))
      (.binary .add (.literal (.text "+")) modifier)
      (.conditional (.binary .lt modifier (.literal (.number 0))) modifier (.literal (.text ""))))

end Ability

theorem divides_index {key : List Char} (quotable : isQuotable '"' key = true) {rest : List Char}
    {ts : List Token} (more : Divides rest ts) :
    Divides ("dict[\"".toList ++ (key ++ ("\"]".toList ++ rest)))
      (Ability.indexTokens (String.ofList (unescape key)) ++ ts) :=
  .token rfl rfl (.token rfl rfl (.quoted quotable (.token rfl rfl more)))

theorem numeral_zero : numeral ['0'] = 0 := by
  decide

section Text

variable {rest : List Char} {ts : List Token} (more : Divides rest ts)

include more

theorem divides_die : Divides ("'d' + source + (".toList ++ rest)
    ([.text "d", .symbol .plus, .ident "source", .symbol .plus, .symbol .lParen] ++ ts) :=
  .token rfl rfl <| .blank rfl <| .token rfl rfl <| .blank rfl <| .token rfl rfl <| .blank rfl <|
    .token rfl rfl <| .blank rfl <| .token rfl rfl more

theorem divides_positive : Divides (" > 0 ? '+' + ".toList ++ rest)
    ([.symbol .gt, .number 0, .symbol .question, .text "+", .symbol .plus] ++ ts) := by
  rw [← numeral_zero]
  exact .blank rfl <| .token rfl rfl <| .blank rfl <| .token rfl rfl <| .blank rfl <|
    .token rfl rfl <| .blank rfl <| .token rfl rfl <| .blank rfl <| .token rfl rfl <|
    .blank rfl more

theorem divides_otherwise : Divides (" : ".toList ++ rest) ([.symbol .colon] ++ ts) :=
  .blank rfl <| .token rfl rfl <| .blank rfl more

theorem divides_negative : Divides (" < 0 ? ".toList ++ rest)
    ([.symbol .lt, .number 0, .symbol .question] ++ ts) := by
  rw [← numeral_zero]
  exact .blank rfl <| .token rfl rfl <| .blank rfl <| .token rfl rfl <| .blank rfl <|
    .token rfl rfl <| .blank rfl more

theorem divides_maximum : Divides ("Math.max(".toList ++ rest)
    ([.ident "Math.max", .symbol .lParen] ++ ts) := by
  have paren : Divides ('(' :: rest) (.symbol .lParen :: ts) := .token rfl rfl more
  exact .name (show isName "Math.max".toList = true by decide) rfl paren

end Text

theorem divides_rollFormula {modifier : String} (quotable : isQuotable '"' modifier.toList = true) :
    Divides (Ability.rollFormula modifier).toList
      (Ability.rollTokens (String.ofList (unescape modifier.toList))) := by
  have last : Divides " : '')".toList [.symbol .colon, .text "", .symbol .rParen] :=
    show Divides [' ', ':', ' ', '\'', '\'', ')'] _ from
      .blank rfl <| .token rfl rfl <| .blank rfl <| .token rfl rfl <| .token rfl rfl .nil
  unfold Ability.rollFormula
  simp only [String.toList_append, List.append_assoc]
  exact divides_die <| divides_index quotable <| divides_positive <| divides_index quotable <|
    divides_otherwise <| divides_index quotable <| divides_negative <| divides_index quotable last

theorem derives_rollTokens (key : String) :
    Derives (.conditional (Ability.rollExpr key)) (Ability.rollTokens key) := by
  have modifier (level : Nat) (bound : level ≤ 6) :
      Derives (.chain level (.index key)) (Ability.indexTokens key) :=
    (Derives.index key).chain_of_atom bound
  have zero : Derives (.chain 4 (.literal (.number 0))) [.number 0] :=
    (Derives.number 0).chain_of_atom (by decide)
  have negative := Derives.choice
    (Derives.loosen (Nat.zero_le 3) (by decide)
      (.binary (s := .lt) rfl (modifier 4 (by decide)) zero))
    (.operators (modifier 0 (by decide)))
    (.operators ((Derives.text "").chain_of_atom (by decide)))
  have signed := Derives.choice
    (Derives.loosen (Nat.zero_le 3) (by decide)
      (.binary (s := .gt) rfl (modifier 4 (by decide)) zero))
    (.operators (Derives.loosen (Nat.zero_le 4) (by decide)
      (.binary (s := .plus) rfl ((Derives.text "+").chain_of_atom (by decide))
        (modifier 5 (by decide)))))
    negative
  have start : Derives (.chain 5 (.literal (.text "d"))) [.text "d"] :=
    (Derives.text "d").chain_of_atom (by decide)
  have source : Derives (.chain 5 (.ident "source")) [.ident "source"] :=
    (Derives.word "source").chain_of_atom (by decide)
  have text := Derives.chain (show 4 ≤ 5 by decide) start
    (.operator (s := .plus) rfl rfl source
      (.operator (s := .plus) rfl rfl ((Derives.group signed).chain_of_atom (Nat.le_succ 5)) .done))
  exact .operators (text.loosen (Nat.zero_le 4) (by decide))

/-- The formula of a roll can be read if the key of its modifier fits between quotes. -/
theorem parse_rollFormula {modifier : String} (quotable : isQuotable '"' modifier.toList = true) :
    parse (Ability.rollFormula modifier) =
      .ok (Ability.rollExpr (String.ofList (unescape modifier.toList))) :=
  parse_of_derives (divides_rollFormula quotable) (derives_rollTokens _)

section Difference

variable {a b : String} (left : isName a.toList = true) (right : isName b.toList = true)

include left right

theorem divides_difference {rest : List Char} (stop : endsName rest = true) {ts : List Token}
    (more : Divides rest ts) : Divides (a.toList ++ (" - ".toList ++ (b.toList ++ rest)))
      (.ident a :: .symbol .minus :: .ident b :: ts) := by
  have operand : Divides (b.toList ++ rest) (.ident b :: ts) := by
    have named := Divides.name right stop more
    rwa [String.ofList_toList] at named
  have subtracted : Divides (" - ".toList ++ (b.toList ++ rest)) (.symbol .minus :: .ident b :: ts) :=
    .blank rfl <| .token rfl rfl <| .blank rfl operand
  have named := Divides.name left (show endsName (" - ".toList ++ _) = true from rfl) subtracted
  rwa [String.ofList_toList] at named

omit left right in
theorem derives_difference (a b : String) :
    Derives (.chain 4 (.binary .sub (wordExpr a) (wordExpr b)))
      [.ident a, .symbol .minus, .ident b] :=
  .binary (s := .minus) rfl ((Derives.word a).chain_of_atom (by decide))
    ((Derives.word b).chain_of_atom (by decide))

/-- A difference of two names can be read. -/
theorem parse_difference :
    parse (a ++ " - " ++ b) = .ok (.binary .sub (wordExpr a) (wordExpr b)) := by
  have divided := divides_difference left right rfl .nil
  refine parse_of_derives ?_ (.operators ((derives_difference a b).loosen (Nat.zero_le 4) (by decide)))
  rwa [List.append_nil, ← List.append_assoc, ← String.toList_append, ← String.toList_append]
    at divided

/-- A difference of two names that counts as zero if it is negative can be read. -/
theorem parse_positiveDifference :
    parse ("Math.max(" ++ a ++ " - " ++ b ++ ", 0)") = .ok (.call .max
      [.binary .sub (wordExpr a) (wordExpr b), .literal (.number 0)]) := by
  have last : Divides ", 0)".toList [.symbol .comma, .number 0, .symbol .rParen] := by
    rw [← numeral_zero]
    exact show Divides [',', ' ', '0', ')'] _ from
      .token rfl rfl <| .blank rfl <| .token rfl rfl <| .token rfl rfl .nil
  have divided := divides_maximum (divides_difference left right rfl last)
  have zero : Derives (.conditional (.literal (.number 0))) [.number 0] :=
    .operators ((Derives.number 0).chain_of_atom (by decide))
  have call := Derives.call (show Builtin.ofName? "Math.max" = some .max from rfl)
    (.argument (.operators ((derives_difference a b).loosen (Nat.zero_le 4) (by decide)))
      (.lastArgument zero))
  refine parse_of_derives ?_ (.operators (call.chain_of_atom (Nat.zero_le 6)))
  simp only [String.toList_append, List.append_assoc]
  exact divided

end Difference

end CharacterRules
