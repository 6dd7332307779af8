import CharacterRules.Proofs.Ruleset.Budget
import CharacterRules.Proofs.Ruleset.SharedRules

/-!
What the texts of the shared rules are read as. Steps are constants and summands, dice, rolls and
surcharges are formulas. So the ruleset of a catalog can be told without reading any of these texts,
if the keys of its abilities fit there.
-/

namespace CharacterRules

open Formula RuleGraph

theorem append_ne_of_not_isPrefix {start key : String} (h : ¬ start.toList <+: key.toList)
    (rest : String) : start ++ rest ≠ key := by
  rintro rfl
  exact h (String.toList_append ▸ List.prefix_append _ _)

theorem append_ne_of_not_isSuffix {ending key : String} (h : ¬ ending.toList <:+ key.toList)
    (front : String) : front ++ ending ≠ key := by
  rintro rfl
  exact h (String.toList_append ▸ List.suffix_append _ _)

theorem append_ne_append {a b : String} (h : ¬ a.toList <+: b.toList) (h' : ¬ b.toList <+: a.toList)
    (x y : String) : a ++ x ≠ b ++ y := by
  intro same
  have first : a.toList <+: (a ++ x).toList := String.toList_append ▸ List.prefix_append _ _
  have second : b.toList <+: (b ++ y).toList := String.toList_append ▸ List.prefix_append _ _
  rw [same] at first
  exact (List.prefix_or_prefix_of_prefix first second).elim h h'

/-- Whether a formula that begins with a character is neither a number nor the word for none. -/
def opensExpr (c : Char) : Bool :=
  c != '+' && c != '-' && c != '.' && (Number.digit? c).isNone && c.toLower != 'i' &&
    c.toLower != 'n'

theorem Number.ofText?_eq_none {text : String} {c : Char} {rest : List Char}
    (first : text.toList = c :: rest) (opens : opensExpr c = true) : ofText? text = none := by
  simp only [opensExpr, Bool.and_eq_true, bne_iff_ne, Option.isNone_iff_eq_none] at opens
  obtain ⟨⟨⟨⟨⟨plus, minus⟩, point⟩, digit⟩, i⟩, n⟩ := opens
  have sign : readSign (c :: rest) = (false, c :: rest) := by
    rw [readSign]
    · exact fun _ => by simp [plus]
    · exact fun _ => by simp [minus]
  have other : ∀ word : String, word.toList.head? ≠ some c.toLower →
      String.ofList ((c :: rest).map Char.toLower) ≠ word := by
    rintro word differs rfl
    rw [String.toList_ofList] at differs
    exact differs rfl
  have digits : readDigits 0 0 (c :: rest) = (0, 0, c :: rest) := by
    rw [readDigits, digit]
  simp only [ofText?, first, sign]
  split
  · rename_i word
    exact absurd word (other _ fun same => i (Option.some.inj same).symm)
  · rename_i word
    exact absurd word (other _ fun same => i (Option.some.inj same).symm)
  · rename_i word
    exact absurd word (other _ fun same => n (Option.some.inj same).symm)
  · rw [readUnsigned?, digits]
    simp [point]

namespace RuleText

/-- A text with the formula of an expression is read as a rule with that expression. -/
theorem rule?_of_parse {x : RuleText} {op : Operator} {text : String} {e : Expr} {c d : Char}
    (known : Operator.ofText x.op = .ok op) (formula : x.formula = some text)
    (head : text.toList.head? = some c) (last : text.toList.getLast? = some d)
    (opens : opensExpr c = true) (visible : Unicode.isSpace c = false)
    (visible' : Unicode.isSpace d = false) (reads : parse text = .ok e) :
    x.rule? = some ⟨x.target, x.source, op, .expr e⟩ := by
  have trimmed := Text.trim_eq_self head last visible visible'
  obtain ⟨rest, first⟩ := List.head?_eq_some_iff.mp head
  have shown : (text == "null") = false := by
    rw [beq_eq_false_iff_ne]
    rintro rfl
    obtain rfl : 'n' = c := Option.some.inj head
    cases opens
  rw [rule?, Rule.ofText, known, formula, Rule.readFormula, parseRule, trimmed]
  dsimp only
  rw [shown, if_neg Bool.false_ne_true, Number.ofText?_eq_none first opens, reads]
  rfl

theorem rule?_one (target : String) :
    (constant target "1").rule? = some ⟨target, "", .set, .literal (.number 1)⟩ := by
  have trimmed : Text.trim "1" = "1" := by decide
  have one : Number.ofText? "1" = some 1 := by decide
  rw [rule?, constant, Rule.ofText, Operator.ofText_set, Rule.readFormula, parseRule, trimmed]
  dsimp only
  rw [if_neg (by decide), one]
  rfl

theorem rule?_passed (target source : String) :
    (summand target source none).rule? = some ⟨target, source, .add, .passThrough⟩ := by
  rw [rule?, summand, Rule.ofText, Operator.ofText_add]
  rfl

end RuleText

namespace Ability

/-- The formula of the die for a step. -/
def dieExpr : Expr :=
  .call .max [.call .min
    [.binary .add (.literal (.number 2)) (.binary .mul (.ident "source") (.literal (.number 2))),
      .literal (.number 12)], .literal (.number 4)]

theorem parse_dieFormula : parse dieFormula = .ok dieExpr := by
  have tokens : (lex dieFormula).map Lexeme.token =
      [.ident "Math.max", .symbol .lParen, .ident "Math.min", .symbol .lParen, .number 2,
        .symbol .plus, .ident "source", .symbol .star, .number 2, .symbol .comma, .number 12,
        .symbol .rParen, .symbol .comma, .number 4, .symbol .rParen].map some := by decide +kernel
  have number (n : Number) {level : Nat} (bound : level ≤ 6) :
      Derives (.chain level (.literal (.number n))) [.number n] :=
    (Derives.number n).chain_of_atom bound
  have source : Derives (.chain 6 (.ident "source")) [.ident "source"] :=
    (Derives.word "source").chain_of_atom (by decide)
  have doubled := Derives.binary (s := .star) rfl source (number 2 (by decide))
  have size := Derives.binary (s := .plus) rfl (number 2 (by decide)) doubled
  have least := Derives.call (show Builtin.ofName? "Math.min" = some .min from rfl)
    (.argument (.operators (size.loosen (Nat.zero_le 4) (by decide)))
      (.lastArgument (.operators (number 12 (by decide)))))
  have most := Derives.call (show Builtin.ofName? "Math.max" = some .max from rfl)
    (.argument (.operators (least.chain_of_atom (by decide)))
      (.lastArgument (.operators (number 4 (by decide)))))
  exact parse_of_lexes tokens (.operators (most.chain_of_atom (by decide)))

end Ability

namespace RuleText

theorem rule?_die (target source : String) :
    (computed target source Ability.dieFormula).rule? =
      some ⟨target, source, .set, .expr Ability.dieExpr⟩ :=
  rule?_of_parse (c := 'M') (d := ')') Operator.ofText_set rfl (by decide) (by decide) (by decide)
    (by decide) (by decide) Ability.parse_dieFormula

theorem rule?_roll {modifier : String} (quotable : isQuotable '"' modifier.toList = true)
    (target source : String) : (computed target source (Ability.rollFormula modifier)).rule? =
      some ⟨target, source, .set,
        .expr (Ability.rollExpr (String.ofList (unescape modifier.toList)))⟩ := by
  refine rule?_of_parse (c := '\'') (d := ')') Operator.ofText_set rfl ?_ ?_ (by decide) (by decide)
    (by decide) (parse_rollFormula quotable)
  · unfold Ability.rollFormula
    simp only [String.toList_append, List.append_assoc]
    rfl
  · unfold Ability.rollFormula
    rw [String.toList_append, List.getLast?_append]
    rfl

end RuleText

namespace Ruleset

/-- The formula of the surcharge. -/
def surchargeExpr (linked : String) : Expr :=
  .call .max [.binary .sub (.ident "source") (.ident (Ability.ofAttribute linked).step),
    .literal (.number 0)]

theorem parse_surchargeFormula {linked : String}
    (name : isName (Ability.ofAttribute linked).step.toList = true) :
    parse (surchargeFormula linked) = .ok (surchargeExpr linked) := by
  have apart : ∀ key : String, ¬ "Step".toList <:+ key.toList →
      ((Ability.ofAttribute linked).step == key) = false := fun key differs =>
    beq_eq_false_iff_ne.mpr (append_ne_of_not_isSuffix differs _)
  have word : wordExpr (Ability.ofAttribute linked).step =
      .ident (Ability.ofAttribute linked).step := by
    rw [wordExpr, apart "true" (by decide), apart "false" (by decide)]
    rfl
  have source : wordExpr "source" = .ident "source" := rfl
  have parsed := parse_positiveDifference (a := "source") (by decide) name
  rw [word, source] at parsed
  exact parsed

theorem rule?_surcharge {linked : String}
    (name : isName (Ability.ofAttribute linked).step.toList = true) (target source : String) :
    (RuleText.summand target source (surchargeFormula linked)).rule? =
      some ⟨target, source, .add, .expr (surchargeExpr linked)⟩ := by
  refine RuleText.rule?_of_parse (c := 'M') (d := ')') Operator.ofText_add rfl ?_ ?_ (by decide)
    (by decide) (by decide) (parse_surchargeFormula name)
  · unfold surchargeFormula
    rw [String.toList_append, String.toList_append, List.append_assoc]
    rfl
  · unfold surchargeFormula
    rw [String.toList_append, List.getLast?_append]
    rfl

theorem filter_baseValues_eq_nil (key : String)
    (apart : ∀ base ∈ baseValues, base.1 ≠ key) :
    (baseValues.map fun (key, value) => RuleText.constant key value).filter (·.target == key) = [] := by
  rw [List.filter_eq_nil_iff]
  rintro x member same
  obtain ⟨base, listed, rfl⟩ := List.mem_map.mp member
  exact apart base listed (eq_of_beq same)

/-- The rules that the texts of an attribute are read as. -/
def readAttributeRules (name : String) : List Rule :=
  let a := Ability.ofAttribute name
  [⟨a.step, "", .set, .literal (.number 1)⟩, ⟨a.step, a.allocation, .add, .passThrough⟩,
    ⟨a.die, a.step, .set, .expr Ability.dieExpr⟩,
    ⟨"attributePointsAllocated", a.allocation, .add, .passThrough⟩,
    ⟨a.roll, a.die, .set,
      .expr (Ability.rollExpr (String.ofList (unescape a.modifier.toList)))⟩]

/-- The rules that the texts of a skill are read as. -/
def readSkillRules (c : Catalog) (name : String) : List Rule :=
  let s := Ability.ofSkill name
  [⟨s.step, s.allocation, .add, .passThrough⟩, ⟨s.die, s.step, .set, .expr Ability.dieExpr⟩,
    ⟨"skillPointsAllocated", s.allocation, .add, .passThrough⟩,
    ⟨s.roll, s.die, .set,
      .expr (Ability.rollExpr (String.ofList (unescape s.modifier.toList)))⟩] ++
  ((linkedAttribute? c name).bind fun linked =>
    (RuleText.summand "skillPointsAllocated" s.step (surchargeFormula linked)).rule?).toList

theorem filterMap_rule?_attributeRules {name : String}
    (quotable : isQuotable '"' (Ability.ofAttribute name).modifier.toList = true) :
    (attributeRules name).filterMap RuleText.rule? = readAttributeRules name := by
  simp only [attributeRules, readAttributeRules, List.filterMap_cons, List.filterMap_nil,
    RuleText.rule?_one, RuleText.rule?_passed, RuleText.rule?_die, RuleText.rule?_roll quotable]

theorem filterMap_rule?_skillRules {c : Catalog} {name : String}
    (quotable : isQuotable '"' (Ability.ofSkill name).modifier.toList = true) :
    (skillRules c name).filterMap RuleText.rule? = readSkillRules c name := by
  rw [skillRules, readSkillRules, List.filterMap_append]
  refine congrArg₂ List.append ?_ ?_
  · simp only [List.filterMap_cons, List.filterMap_nil, RuleText.rule?_passed, RuleText.rule?_die,
      RuleText.rule?_roll quotable]
  · cases linkedAttribute? c name with
    | none => rfl
    | some linked =>
        rw [Option.map_some, Option.toList_some, Option.bind_some,
          List.filterMap_eq_flatMap_toList, List.flatMap_singleton]

/-- The rules that the shared texts of a catalog are read as. -/
def readBaseRules (c : Catalog) : List Rule :=
  (baseValues.map fun (key, value) => RuleText.constant key value).filterMap RuleText.rule? ++
    (c.names "attributes").flatMap readAttributeRules ++
    (c.names "skills").flatMap (readSkillRules c) ++
    derivedRules.filterMap RuleText.rule? ++
    Budget.all.map Budget.rule

/-- The rules that the texts of the base values are read as. -/
def readBaseValues : List Rule :=
  [("attributePoints", 5), ("skillPoints", 12), ("hindranceCap", 4), ("edgePoints", 0), ("pace", 6),
    ("parry", 2), ("toughness", 2), ("bennies", 3), ("size", 0)].map
      fun (key, value) => ⟨key, "", .set, .literal (.number value)⟩

theorem filterMap_rule?_baseValues :
    (baseValues.map fun (key, value) => RuleText.constant key value).filterMap RuleText.rule? =
      readBaseValues := rfl

/-- The formula of half a value, rounded down. -/
def halfExpr (e : Expr) : Expr := .call .floor [.binary .div e (.literal (.number 2))]

theorem derives_halfExpr {e : Expr} {ts : List Token} (value : Derives (.chain 6 e) ts) :
    Derives (.conditional (halfExpr e)) (.ident "Math.floor" :: .symbol .lParen ::
      ((ts ++ [.symbol .slash, .number 2]) ++ [.symbol .rParen])) := by
  have two : Derives (.chain 6 (.literal (.number 2))) [.number 2] :=
    (Derives.number 2).chain_of_atom (Nat.le_refl 6)
  have half := Derives.binary (s := .slash) rfl value two
  have floor := Derives.call (show Builtin.ofName? "Math.floor" = some .floor from rfl)
    (.lastArgument (.operators (half.loosen (Nat.zero_le 5) (by decide))))
  exact .operators (floor.chain_of_atom (Nat.zero_le 6))

theorem parse_halfOfSource : parse "Math.floor(source / 2)" = .ok (halfExpr (.ident "source")) := by
  have tokens : (lex "Math.floor(source / 2)").map Lexeme.token =
      [.ident "Math.floor", .symbol .lParen, .ident "source", .symbol .slash, .number 2,
        .symbol .rParen].map some := by decide +kernel
  exact parse_of_lexes tokens (derives_halfExpr ((Derives.word "source").chain_of_atom (by decide)))

/-- The points of hindrances that count. -/
def countedHindrances : Expr := .call .min [.ident "source", .ident "hindranceCap"]

theorem parse_halfOfHindrances : parse "Math.floor(Math.min(source, hindranceCap) / 2)" =
    .ok (halfExpr countedHindrances) := by
  have tokens : (lex "Math.floor(Math.min(source, hindranceCap) / 2)").map Lexeme.token =
      [.ident "Math.floor", .symbol .lParen, .ident "Math.min", .symbol .lParen, .ident "source",
        .symbol .comma, .ident "hindranceCap", .symbol .rParen, .symbol .slash, .number 2,
        .symbol .rParen].map some := by decide +kernel
  have source : Derives (.chain 0 (.ident "source")) [.ident "source"] :=
    (Derives.word "source").chain_of_atom (by decide)
  have cap : Derives (.chain 0 (.ident "hindranceCap")) [.ident "hindranceCap"] :=
    (Derives.word "hindranceCap").chain_of_atom (by decide)
  have least := Derives.call (show Builtin.ofName? "Math.min" = some .min from rfl)
    (.argument (.operators source) (.lastArgument (.operators cap)))
  exact parse_of_lexes tokens (derives_halfExpr (least.chain_of_atom (by decide)))

/-- The rules that the texts of the derived statistics are read as. -/
def readDerivedRules : List Rule :=
  [⟨"parry", "skills.Fighting", .add, .expr (halfExpr (.ident "source"))⟩,
    ⟨"toughness", "vigor", .add, .expr (halfExpr (.ident "source"))⟩,
    ⟨"toughness", "size", .add, .passThrough⟩,
    ⟨"toughness", "armor", .add, .passThrough⟩,
    ⟨"edgePoints", "advances", .add, .passThrough⟩,
    ⟨"edgePoints", "hindrancePoints", .add, .expr (halfExpr countedHindrances)⟩]

theorem filterMap_rule?_derivedRules :
    derivedRules.filterMap RuleText.rule? = readDerivedRules := by
  have half : ∀ target source, (RuleText.summand target source (some "Math.floor(source / 2)")).rule? =
      some ⟨target, source, .add, .expr (halfExpr (.ident "source"))⟩ := fun target source =>
    RuleText.rule?_of_parse (c := 'M') (d := ')') Operator.ofText_add rfl (by decide) (by decide)
      (by decide) (by decide) (by decide) parse_halfOfSource
  have capped : ∀ target source, (RuleText.summand target source
      (some "Math.floor(Math.min(source, hindranceCap) / 2)")).rule? =
        some ⟨target, source, .add, .expr (halfExpr countedHindrances)⟩ := fun target source =>
    RuleText.rule?_of_parse (c := 'M') (d := ')') Operator.ofText_add rfl (by decide) (by decide)
      (by decide) (by decide) (by decide) parse_halfOfHindrances
  simp only [derivedRules, readDerivedRules, List.filterMap_cons, List.filterMap_nil, half, capped,
    RuleText.rule?_passed]

theorem filterMap_rule?_baseRules {c : Catalog}
    (attributes : ∀ name ∈ c.names "attributes",
      isQuotable '"' (Ability.ofAttribute name).modifier.toList = true)
    (skills : ∀ name ∈ c.names "skills",
      isQuotable '"' (Ability.ofSkill name).modifier.toList = true) :
    (baseRules c).filterMap RuleText.rule? = readBaseRules c := by
  have ofAttributes : ((c.names "attributes").flatMap attributeRules).filterMap RuleText.rule? =
      (c.names "attributes").flatMap readAttributeRules :=
    List.filterMap_flatMap.trans <| List.flatMap_congr fun name member =>
      filterMap_rule?_attributeRules (attributes name member)
  have ofSkills : ((c.names "skills").flatMap (skillRules c)).filterMap RuleText.rule? =
      (c.names "skills").flatMap (readSkillRules c) :=
    List.filterMap_flatMap.trans <| List.flatMap_congr fun name member =>
      filterMap_rule?_skillRules (skills name member)
  have budget : ∀ b ∈ Budget.all, (RuleText.constant b.fact b.formula).rule? = some b.rule :=
    fun b member => toOption_eq_some_iff.mpr (Budget.ofText_formula member)
  have ofBudgets : (Budget.all.map fun b => RuleText.constant b.fact b.formula).filterMap
      RuleText.rule? = Budget.all.map Budget.rule := by
    rw [List.filterMap_map, ← List.filterMap_eq_map]
    refine List.filterMap_congr fun b member => ?_
    rw [Function.comp_apply, Function.comp_apply, budget b member]
  rw [baseRules, List.filterMap_append, List.filterMap_append, List.filterMap_append,
    List.filterMap_append, ofAttributes, ofSkills, ofBudgets, readBaseRules]

/-- The ruleset of a catalog whose shared rules can all be read. -/
def compiledOf (c : Catalog) : Ruleset :=
  let (g, issues) := registerTraits (targetNames c) (defineAll {} (readBaseRules c)) c
  { catalog := c, graph := g.withOrder, names := targetNames c, issues }

/-- A catalog compiles to that ruleset if the keys of its modifiers fit between quotes and the
surcharges can be read. -/
theorem ofCatalog_eq_compiledOf {c : Catalog}
    (attributes : ∀ name ∈ c.names "attributes",
      isQuotable '"' (Ability.ofAttribute name).modifier.toList = true)
    (skills : ∀ name ∈ c.names "skills",
      isQuotable '"' (Ability.ofSkill name).modifier.toList = true)
    (surcharges : ∀ skill ∈ c.names "skills", ∀ linked ∈ linkedAttribute? c skill,
      (Rule.readFormula (some (surchargeFormula linked))).isOk = true) :
    ofCatalog c = .ok (compiledOf c) := by
  obtain ⟨g, base⟩ := RuleGraph.exists_defineTexts
    (fun x hx => isReadable_of_surcharges attributes skills surcharges hx) {}
  rw [ofCatalog, base, eq_defineAll_of_defineTexts base,
    filterMap_rule?_baseRules attributes skills]
  rfl

/-- The rules that the shared texts of a catalog are read as, with none of the texts left. -/
def plainBaseRules (c : Catalog) : List Rule :=
  readBaseValues ++ (c.names "attributes").flatMap readAttributeRules ++
    (c.names "skills").flatMap (readSkillRules c) ++ readDerivedRules ++ Budget.all.map Budget.rule

/-- The ruleset of a catalog, put together without reading its shared rules. -/
def assembledOf (c : Catalog) : Ruleset :=
  let (g, issues) := registerTraits (targetNames c) (defineAll {} (plainBaseRules c)) c
  { catalog := c, graph := g.withOrder, names := targetNames c, issues }

theorem compiledOf_eq_assembledOf (c : Catalog) : compiledOf c = assembledOf c := by
  have plain : readBaseRules c = plainBaseRules c := by
    rw [readBaseRules, filterMap_rule?_baseValues, filterMap_rule?_derivedRules, plainBaseRules]
  rw [compiledOf, plain, assembledOf]

theorem ofCatalog_eq_of_keysFit {c : Catalog} (fit : KeysFit c) : ofCatalog c = .ok (assembledOf c) := by
  rw [← compiledOf_eq_assembledOf]
  refine ofCatalog_eq_compiledOf fit.attributes fit.skills fun skill member linked found => ?_
  exact (Bool.and_eq_true_iff.mp (isReadable_surcharge (fit.linked skill member linked found) "" "")).2

end Ruleset
end CharacterRules
