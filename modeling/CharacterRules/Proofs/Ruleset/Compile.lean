import CharacterRules.Proofs.Ruleset.AbilityFormula
import CharacterRules.Proofs.Text.Trim
import CharacterRules.Proofs.Trait.Entry
import CharacterRules.Ruleset.Basic

/-!
Catalogs that compile. The rules that all characters share put the names of abilities into formula
text: a roll has the key of its modifier between quotes, and a surcharge has the key of the linked
attribute's step as a name. A catalog compiles if the keys fit there.
-/

namespace CharacterRules

open Formula

namespace RuleText

/-- Whether the operator and the formula of a rule can be read. -/
def isReadable (x : RuleText) : Bool :=
  (Operator.ofText x.op).isOk && (Rule.readFormula x.formula).isOk

theorem exists_ofText {x : RuleText} (h : x.isReadable = true) :
    ∃ r, Rule.ofText x.target x.source x.op x.formula = .ok r := by
  obtain ⟨known, reads⟩ := Bool.and_eq_true_iff.mp h
  obtain ⟨op, known⟩ := exists_of_isOk known
  obtain ⟨formula, reads⟩ := exists_of_isOk reads
  refine ⟨⟨x.target, x.source, op, formula⟩, ?_⟩
  rw [Rule.ofText, known, reads]
  rfl

/-- A rule can be read if its formula is the text of an expression. -/
theorem isReadable_of_parse {x : RuleText} {op : Operator} {text : String} {e : Expr}
    (known : Operator.ofText x.op = .ok op) (formula : x.formula = some text)
    (trimmed : Text.trim text = text) (reads : parse text = .ok e) : x.isReadable = true := by
  rw [isReadable, known, formula, Rule.readFormula, parseRule, trimmed]
  dsimp only
  split
  · rfl
  · split
    · rfl
    · rw [reads]
      rfl

end RuleText

theorem RuleGraph.exists_defineTexts {texts : List RuleText}
    (h : ∀ x ∈ texts, x.isReadable = true) (g : RuleGraph) :
    ∃ g', g.defineTexts texts = .ok g' := by
  induction texts generalizing g with
  | nil => exact ⟨g, rfl⟩
  | cons x rest ih =>
      obtain ⟨r, reads⟩ := RuleText.exists_ofText (h x List.mem_cons_self)
      obtain ⟨g', more⟩ := ih (fun y hy => h y (List.mem_cons_of_mem x hy)) (g.define r)
      refine ⟨g', ?_⟩
      have first : g.defineText x.target x.source x.op x.formula = .ok (g.define r) := by
        rw [defineText, reads]
        rfl
      rw [defineTexts, List.foldlM_cons, first]
      exact more

theorem RuleText.isReadable_of_ofText {x : RuleText} {r : Rule}
    (h : Rule.ofText x.target x.source x.op x.formula = .ok r) : x.isReadable = true := by
  obtain ⟨op, known, h⟩ := exists_of_bind_eq_ok h
  obtain ⟨formula, reads, -⟩ := exists_of_bind_eq_ok h
  rw [isReadable, known, reads]
  rfl

/-- One rule that cannot be read fails the registration of all. -/
theorem RuleGraph.isReadable_of_defineTexts {texts : List RuleText} {g g' : RuleGraph}
    (h : g.defineTexts texts = .ok g') : ∀ x ∈ texts, x.isReadable = true := by
  induction texts generalizing g with
  | nil => exact fun x hx => absurd hx List.not_mem_nil
  | cons y rest ih =>
      obtain ⟨middle, first, more⟩ := exists_of_bind_eq_ok h
      intro x hx
      obtain rfl | later := List.mem_cons.mp hx
      · cases reads : Rule.ofText x.target x.source x.op x.formula with
        | ok r => exact RuleText.isReadable_of_ofText reads
        | error fault =>
            change (Rule.ofText x.target x.source x.op x.formula).map g.define = _ at first
            rw [reads] at first
            cases first
      · exact ih more x later

namespace Ruleset

open RuleText

theorem isReadable_roll {modifier : String} (quotable : isQuotable '"' modifier.toList = true)
    (target source : String) :
    (RuleText.computed target source (Ability.rollFormula modifier)).isReadable = true := by
  refine isReadable_of_parse Operator.ofText_set rfl ?_ (parse_rollFormula quotable)
  refine Text.trim_eq_self (c := '\'') (d := ')') ?_ ?_ (by decide) (by decide)
  · unfold Ability.rollFormula
    simp only [String.toList_append, List.append_assoc]
    rfl
  · unfold Ability.rollFormula
    rw [String.toList_append, List.getLast?_append]
    rfl

theorem isReadable_surcharge {linked : String}
    (name : isName (Ability.ofAttribute linked).step.toList = true) (target source : String) :
    (RuleText.summand target source (surchargeFormula linked)).isReadable = true := by
  have reads := parse_positiveDifference (a := "source") (by decide) name
  refine isReadable_of_parse Operator.ofText_add rfl ?_ reads
  refine Text.trim_eq_self (c := 'M') (d := ')') ?_ ?_ (by decide) (by decide)
  · unfold surchargeFormula
    rw [String.toList_append, String.toList_append, List.append_assoc]
    rfl
  · unfold surchargeFormula
    rw [String.toList_append, List.getLast?_append]
    rfl

theorem isReadable_die (target source : String) :
    (RuleText.computed target source Ability.dieFormula).isReadable = true := by
  have formula : (Rule.readFormula (some Ability.dieFormula)).isOk = true := by decide +kernel
  rw [isReadable, RuleText.computed, Operator.ofText_set, formula]
  rfl

theorem isReadable_constant_one (target : String) :
    (RuleText.constant target "1").isReadable = true := by
  have formula : (Rule.readFormula (some "1")).isOk = true := by decide
  rw [isReadable, RuleText.constant, Operator.ofText_set, formula]
  rfl

theorem isReadable_passed (target source : String) :
    (RuleText.summand target source none).isReadable = true := by
  rw [isReadable, RuleText.summand, Operator.ofText_add]
  rfl

theorem isReadable_of_mem_attributeRules {name : String}
    (quotable : isQuotable '"' (Ability.ofAttribute name).modifier.toList = true) {x : RuleText}
    (h : x ∈ attributeRules name) : x.isReadable = true := by
  simp only [attributeRules, List.mem_cons, List.not_mem_nil, or_false] at h
  rcases h with rfl | rfl | rfl | rfl | rfl
  · exact isReadable_constant_one _
  · exact isReadable_passed _ _
  · exact isReadable_die _ _
  · exact isReadable_passed _ _
  · exact isReadable_roll quotable _ _

theorem isReadable_of_mem_skillRules {c : Catalog} {name : String}
    (quotable : isQuotable '"' (Ability.ofSkill name).modifier.toList = true)
    (surcharge : ∀ linked ∈ linkedAttribute? c name,
      (Rule.readFormula (some (surchargeFormula linked))).isOk = true) {x : RuleText}
    (h : x ∈ skillRules c name) : x.isReadable = true := by
  simp only [skillRules, List.mem_append, List.mem_cons, List.not_mem_nil, or_false,
    Option.mem_toList, Option.map_eq_some_iff] at h
  rcases h with (rfl | rfl | rfl | rfl) | ⟨linked, found, rfl⟩
  · exact isReadable_passed _ _
  · exact isReadable_die _ _
  · exact isReadable_passed _ _
  · exact isReadable_roll quotable _ _
  · rw [isReadable, summand, Operator.ofText_add, surcharge linked found]
    rfl

/-- Whether the keys of a catalog's abilities fit into formula text: those of the modifiers between
quotes, and those of the steps that surcharges name as names. -/
structure KeysFit (c : Catalog) : Prop where
  attributes : ∀ name ∈ c.names "attributes",
    isQuotable '"' (Ability.ofAttribute name).modifier.toList = true
  skills : ∀ name ∈ c.names "skills",
    isQuotable '"' (Ability.ofSkill name).modifier.toList = true
  linked : ∀ skill ∈ c.names "skills", ∀ linked ∈ linkedAttribute? c skill,
    isName (Ability.ofAttribute linked).step.toList = true

instance (c : Catalog) : Decidable (KeysFit c) :=
  decidable_of_iff
    ((∀ name ∈ c.names "attributes", isQuotable '"' (Ability.ofAttribute name).modifier.toList = true) ∧
      (∀ name ∈ c.names "skills", isQuotable '"' (Ability.ofSkill name).modifier.toList = true) ∧
      ∀ skill ∈ c.names "skills", ∀ linked ∈ linkedAttribute? c skill,
        isName (Ability.ofAttribute linked).step.toList = true)
    ⟨fun ⟨attributes, skills, linked⟩ => ⟨attributes, skills, linked⟩,
      fun ⟨attributes, skills, linked⟩ => ⟨attributes, skills, linked⟩⟩

/-- The shared rules can be read if the keys of modifiers fit between quotes and the surcharges can be
read. -/
theorem isReadable_of_surcharges {c : Catalog}
    (attributes : ∀ name ∈ c.names "attributes",
      isQuotable '"' (Ability.ofAttribute name).modifier.toList = true)
    (skills : ∀ name ∈ c.names "skills",
      isQuotable '"' (Ability.ofSkill name).modifier.toList = true)
    (surcharges : ∀ skill ∈ c.names "skills", ∀ linked ∈ linkedAttribute? c skill,
      (Rule.readFormula (some (surchargeFormula linked))).isOk = true) {x : RuleText}
    (h : x ∈ baseRules c) : x.isReadable = true := by
  simp only [baseRules, List.mem_append, List.mem_flatMap] at h
  rcases h with (((values | ⟨name, member, ability⟩) | ⟨name, member, skill⟩) | derived) | budgets
  · have fixed : ∀ x ∈ baseValues.map fun entry => RuleText.constant entry.1 entry.2,
        x.isReadable = true := by decide
    exact fixed x values
  · exact isReadable_of_mem_attributeRules (attributes name member) ability
  · exact isReadable_of_mem_skillRules (skills name member) (surcharges name member) skill
  · have fixed : ∀ x ∈ derivedRules, x.isReadable = true := by decide +kernel
    exact fixed x derived
  · have fixed : ∀ x ∈ Budget.all.map fun b => RuleText.constant b.fact b.formula,
        x.isReadable = true := by decide +kernel
    exact fixed x budgets

theorem isReadable_of_mem_baseRules {c : Catalog} (fit : KeysFit c) {x : RuleText}
    (h : x ∈ baseRules c) : x.isReadable = true := by
  refine isReadable_of_surcharges fit.attributes fit.skills (fun skill member linked found => ?_) h
  exact (Bool.and_eq_true_iff.mp (isReadable_surcharge (fit.linked skill member linked found) "" "")).2

/-- A catalog compiles exactly if all shared rules can be read, whatever else it holds. -/
theorem exists_ofCatalog_iff (c : Catalog) :
    (∃ r, ofCatalog c = .ok r) ↔ ∀ x ∈ baseRules c, x.isReadable = true := by
  constructor
  · rintro ⟨r, compiled⟩
    obtain ⟨g, base, -⟩ := exists_of_bind_eq_ok compiled
    exact RuleGraph.isReadable_of_defineTexts base
  · intro readable
    obtain ⟨g, base⟩ := RuleGraph.exists_defineTexts readable {}
    rw [ofCatalog, base]
    exact ⟨_, rfl⟩

/-- A catalog compiles if the keys of its abilities fit into formula text. -/
theorem exists_ofCatalog (c : Catalog) (fit : KeysFit c) : ∃ r, ofCatalog c = .ok r :=
  (exists_ofCatalog_iff c).mpr fun _ hx => isReadable_of_mem_baseRules fit hx

/-- A skill that is linked to an attribute of one word, next to names that no formula could have as
such. -/
def linkedCatalog : Catalog :=
  .ofSource {("attributes", {("Agility", ""), ("Hand Eye", "")}),
    ("skills", {("Fighting", "Attribute=Agility"), ("Éclat", "")})}

/-- Attributes that no skill is linked to may have any name that fits between quotes. -/
theorem exists_ofCatalog_linkedCatalog : ∃ r, ofCatalog linkedCatalog = .ok r :=
  exists_ofCatalog linkedCatalog (by decide +kernel)

/-- A catalog does not compile if a skill's surcharge has a formula that cannot be read. -/
theorem not_ofCatalog_of_surcharge {c : Catalog} {skill linked : String}
    (member : skill ∈ c.names "skills") (found : linkedAttribute? c skill = some linked)
    (unreadable : (Rule.readFormula (some (surchargeFormula linked))).isOk = false)
    (r : Ruleset) : ofCatalog c ≠ .ok r := by
  intro compiled
  have rule : RuleText.summand "skillPointsAllocated" (Ability.ofSkill skill).step
      (surchargeFormula linked) ∈ skillRules c skill := by
    simp only [skillRules, found, Option.map_some, Option.toList_some]
    exact List.mem_append_right _ List.mem_cons_self
  have readable := (exists_ofCatalog_iff c).mp ⟨r, compiled⟩ _ <|
    List.mem_append_left _ <| List.mem_append_left _ <| List.mem_append_right _ <|
      List.mem_flatMap.mpr ⟨skill, member, rule⟩
  rw [RuleText.isReadable, RuleText.summand, unreadable, Bool.and_false] at readable
  cases readable

/-- A skill that is linked to an attribute of two words. -/
def handEyeCatalog : Catalog :=
  .ofSource {("attributes", {("Hand Eye", "")}), ("skills", {("Aim", "Attribute=\"Hand Eye\"")})}

/-- Without any issue the catalog does not compile: the key of the linked attribute's step, with its
blank, stands in the formula of the surcharge. -/
theorem ofCatalog_handEyeCatalog : handEyeCatalog.issues = [] ∧
    ∀ r, ofCatalog handEyeCatalog ≠ .ok r := by
  have unreadable : (Rule.readFormula (some (surchargeFormula "Hand Eye"))).isOk = false := by
    decide +kernel
  have found : linkedAttribute? handEyeCatalog "Aim" = some "Hand Eye" := by decide +kernel
  exact ⟨by decide +kernel, not_ofCatalog_of_surcharge (by decide +kernel) found unreadable⟩

end Ruleset
end CharacterRules
