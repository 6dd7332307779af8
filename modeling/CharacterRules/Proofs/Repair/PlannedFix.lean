import CharacterRules.Proofs.Number.Neighbour
import CharacterRules.Proofs.Repair.Freeze
import CharacterRules.Proofs.Rule.Settled
import CharacterRules.Proofs.Ruleset.BaseRule

/-!
Planned fixes. What is planned for a comparison follows from the kind of its key, and a key that no rule
writes then has the value that the fix gives it. So the comparison holds if that value passes: another one
of few choices always does. What is turned on and off is turned off if it does not pass when it is on,
whether or not it passes then; and the number next to the bound of a plain attribute passes unless it is
rounded back to the bound.
-/

namespace CharacterRules

namespace Text

theorem dropStart?_eq_some {start text rest : List Char} (h : dropStart? start text = some rest) :
    text = start ++ rest := by
  induction start generalizing text with
  | nil => exact Option.some.inj h
  | cons a start ih =>
      cases text with
      | nil => cases h
      | cons b text =>
          rw [dropStart?] at h
          split at h
          · rename_i same
            rw [same, ih h]
            rfl
          · cases h

theorem eq_of_afterStart? {text start rest : String} (h : afterStart? text start = some rest) :
    text = start ++ rest := by
  obtain ⟨chars, dropped, rfl⟩ := Option.map_eq_some_iff.mp h
  apply String.toList_injective
  rw [String.toList_append, String.toList_ofList]
  exact dropStart?_eq_some dropped

end Text

namespace Test

/-- Whether a test is passed by what is turned on, or by what is turned off. -/
def IsSwitchable (t : Test) : Prop :=
  t.accepts (some (.ofBool true)) = true ∨ t.accepts none = true

/-- Whether the value that a test asks for is told from its bound: not-a-number is not, nor is a number
that the next one is rounded back to. -/
def IsReached : Test → Prop
  | .compare .eq v => v.number? ≠ some .nan
  | .compare .ge (.number n) => n ≠ .nan
  | .compare .gt (.number n) => n.lt (n + 1) = true
  | .compare .lt (.number n) => (n - 1).lt n = true
  | _ => True

/-- A bound that is an integer is told from its neighbours as long as they are numbers. -/
theorem isReached_of_toInt? {relation : Relation} {n : Number} {z : Int} (integer : n.toInt? = some z)
    (above : Number.IsExact (z + 1)) (below : Number.IsExact (z - 1)) :
    (Test.compare relation (.number n)).IsReached := by
  have number : n ≠ .nan := by
    rintro rfl
    cases integer
  cases relation with
  | eq => exact fun same => number (Option.some.inj same)
  | ne => trivial
  | ge => exact number
  | le => trivial
  | gt => exact Number.lt_add_one_of_toInt? integer above
  | lt => exact Number.sub_one_lt_of_toInt? integer below

end Test

/-- A value is equal to itself unless it is not-a-number, which counts as less. -/
theorem orderOf_self (v : Value) : orderOf v v = if v.number? = some .nan then .lt else .eq := by
  rw [orderOf]
  cases read : v.number? with
  | none => exact Std.compare_self
  | some n =>
      by_cases nan : n = .nan
      · subst nan
        rfl
      · have told : n.isNaN = false := by
          cases n with
          | nan => exact absurd rfl nan
          | infinity negative => rfl
          | finite negative m e normal => rfl
        have same : n.order? n = some .eq := eq_of_beq (Number.beq_self_iff.mpr told)
        rw [if_neg fun h => nan (Option.some.inj h)]
        dsimp only
        rw [same]
        rfl

namespace Fix

theorem key_toggle (key : String) (t : Test) : (toggle key t).key = key := by
  rw [toggle]
  split <;> rfl

theorem accepts_toggle_iff (key : String) (t : Test) :
    t.accepts (toggle key t).value? = true ↔ t.IsSwitchable := by
  rw [toggle, Test.IsSwitchable]
  split
  · rename_i on
    exact iff_of_true on (.inl on)
  · rename_i off
    exact (or_iff_right off).symm

theorem accepts_next_iff (n : Number) : (Test.compare .gt (.number n)).accepts (some (.number (n + 1))) =
    true ↔ n.lt (n + 1) = true := by
  show Relation.gt.holds (((n + 1).order? n).getD .lt) = true ↔ (n.order? (n + 1) == some .lt) = true
  rw [Number.order?_swap n (n + 1)]
  rcases n.order? (n + 1) with _ | _ | _ | _ <;> decide

theorem accepts_previous_iff {n : Number} (number : n ≠ .nan) :
    (Test.compare .lt (.number n)).accepts (some (.number (n - 1))) = true ↔ (n - 1).lt n = true := by
  show Relation.lt.holds (((n - 1).order? n).getD .lt) = true ↔ ((n - 1).order? n == some .lt) = true
  cases order : (n - 1).order? n with
  | none =>
      rcases Number.order?_eq_none_iff.mp order with nan | nan
      · exact absurd nan (Number.sub_one_ne_nan number)
      · exact absurd nan number
  | some o => cases o <;> decide

/-- The value that a test asks for passes it exactly if it is told from the bound. -/
theorem accepts_desired_iff {t : Test} {v : Value} (desired : desiredValue? t = some v)
    (fails : t.accepts none = false) : t.accepts (some v) = true ↔ t.IsReached := by
  cases t with
  | compare relation expected =>
      cases relation with
      | eq =>
          obtain rfl := Option.some.inj desired
          rw [Test.accepts, Option.getD_some, orderOf_self]
          split
          · rename_i nan
            exact iff_of_false Bool.false_ne_true (not_not.mpr nan)
          · rename_i told
            exact iff_of_true rfl told
      | ne => cases desired
      | ge =>
          cases expected with
          | text s => cases desired
          | number n =>
              obtain rfl := Option.some.inj desired
              rw [Test.accepts, Option.getD_some, orderOf_self]
              split
              · rename_i nan
                exact iff_of_false Bool.false_ne_true (not_not.mpr (Option.some.inj nan))
              · rename_i told
                exact iff_of_true rfl fun nan => told (congrArg some nan)
      | le =>
          cases expected with
          | text s => cases desired
          | number n =>
              obtain rfl := Option.some.inj desired
              rw [Test.accepts, Option.getD_some, orderOf_self]
              split <;> exact iff_of_true rfl trivial
      | gt =>
          cases expected with
          | text s => cases desired
          | number n =>
              obtain rfl := Option.some.inj desired
              exact accepts_next_iff n
      | lt =>
          cases expected with
          | text s => cases desired
          | number n =>
              obtain rfl := Option.some.inj desired
              -- an absent attribute is below not-a-number, so that test would not have failed
              refine accepts_previous_iff ?_
              rintro rfl
              cases fails
  | «matches» pattern => cases desired
  | differs pattern => cases desired

end Fix

namespace Ruleset

/-- What is planned for a comparison of a key, by the kind of the key. -/
inductive Plans (r : Ruleset) (sheet : Snapshot) (key : String) (test : Test) : Fix → Prop where
  | feature {name choice : String} (named : Text.afterStart? key "features." = some name)
      (granted : r.featureToggle? name = some choice) : Plans r sheet key test (.toggle choice test)
  | switch (own : Text.afterStart? key "features." = none)
      (start : toggleStarts.any (Text.startsWith key) = true) :
      Plans r sheet key test (.toggle key test)
  | skillDie {name : String} {fix : Fix} (named : key = "skills." ++ name)
      (known : r.catalog.contains "skills" name = true)
      (bought : Fix.ofAbility? (.ofSkill name) Ability.maxStep sheet test = some fix) :
      Plans r sheet key test fix
  | attributeDie {name : String} {fix : Fix} (named : key = Ability.attributeKey name)
      (known : name ∈ r.catalog.names "attributes")
      (bought : Fix.ofAbility? (.ofAttribute name) (Ability.maxStep - 1) sheet test = some fix) :
      Plans r sheet key test fix
  | choice {choices : List String} {fix : Fix} {random : Random}
      (own : Text.afterStart? key "features." = none)
      (still : toggleStarts.any (Text.startsWith key) = false) (few : r.choices? key = some choices)
      (drawn : (fixChoice? key choices test sheet random).1 = some fix) : Plans r sheet key test fix
  | plain {fix : Fix} (own : Text.afterStart? key "features." = none)
      (still : toggleStarts.any (Text.startsWith key) = false) (many : r.choices? key = none)
      (planned : r.fixPlain? key test = some fix) : Plans r sheet key test fix

theorem plans_of_planFix {r : Ruleset} {c : Comparison} {key : String} (single : c.operand = .key key)
    {sheet : Snapshot} {random : Random} {fix : Fix}
    (planned : (r.planFix c sheet random).1 = some fix) : r.Plans sheet key c.test fix := by
  rw [planFix, single] at planned
  dsimp only at planned
  split at planned
  · rename_i name named
    obtain ⟨choice, granted, rfl⟩ := Option.map_eq_some_iff.mp planned
    exact .feature named granted
  · rename_i own
    split at planned
    · rename_i start
      obtain rfl := Option.some.inj planned
      exact .switch own start
    · rename_i still
      split at planned
      · rename_i name named
        dsimp only at planned
        rw [Option.ite_none_right_eq_some] at planned
        exact .skillDie (Text.eq_of_afterStart? named) planned.1 planned.2
      · split at planned
        · rename_i name found
          rw [attributeOf?] at found
          have named := List.find?_some found
          exact .attributeDie (eq_of_beq named).symm (List.mem_of_find?_eq_some found) planned
        · rename_i choices few
          exact .choice own (Bool.eq_false_iff.mpr still) few planned
        · rename_i many
          exact .plain own (Bool.eq_false_iff.mpr still) many planned

theorem of_fixChoice? {key : String} {choices : List String} {test : Test} {sheet : Snapshot}
    {random : Random} {fix : Fix} (drawn : (fixChoice? key choices test sheet random).1 = some fix) :
    fix.key = key ∧ test.accepts fix.value? = true := by
  rw [fixChoice?] at drawn
  split at drawn
  · rename_i choice rest chosen
    obtain rfl := Option.some.inj drawn
    have passes := (List.mem_filter.mp (Random.mem_of_choose? chosen)).2
    exact ⟨rfl, (Bool.and_eq_true_iff.mp passes).1⟩
  · dsimp only at drawn
    obtain ⟨passes, removed⟩ := Option.ite_none_right_eq_some.mp drawn
    obtain rfl := Option.some.inj removed
    exact ⟨rfl, passes⟩

theorem of_fixPlain? {r : Ruleset} {key : String} {test : Test} {fix : Fix}
    (planned : r.fixPlain? key test = some fix) : fix.key = key ∧
      (test.accepts fix.value? = true ↔ test.accepts none = true ∨ test.IsReached) := by
  rw [fixPlain?] at planned
  obtain ⟨-, planned⟩ := Option.ite_none_left_eq_some.mp planned
  split at planned
  · rename_i passes
    obtain rfl := Option.some.inj planned
    exact ⟨rfl, iff_of_true passes (.inl passes)⟩
  · rename_i fails
    obtain ⟨v, desired, rfl⟩ := Option.map_eq_some_iff.mp planned
    have reached := Fix.accepts_desired_iff desired (Bool.eq_false_iff.mpr fails)
    exact ⟨rfl, reached.trans (or_iff_right fails).symm⟩

theorem mem_lookupChain_of_featureToggle? {r : Ruleset} {key name choice : String}
    (named : Text.afterStart? key "features." = some name)
    (granted : r.featureToggle? name = some choice) : choice ∈ lookupChain key := by
  obtain ⟨table, found, rfl⟩ := Option.map_eq_some_iff.mp granted
  have known := List.mem_of_find?_eq_some found
  rw [lookupChain, named]
  refine List.mem_cons_of_mem _ ?_
  rcases List.mem_pair.mp known with rfl | rfl
  · exact List.mem_cons_self
  · exact List.mem_cons_of_mem _ List.mem_cons_self

/-- Whether, of what is looked up for a key, no rule writes anything and nothing but one key is chosen. -/
structure ReadsOnly (r : Ruleset) (s : Selection) (key only : String) : Prop where
  raw : ∀ k ∈ lookupChain key, r.graph.hasTarget k = false
  unset : ∀ k ∈ lookupChain key, k ≠ only → s[k]? = none

section

variable {r : Ruleset} {s : Selection} {key : String}

theorem readsOnly_self (own : Text.afterStart? key "features." = none)
    (raw : r.graph.hasTarget key = false) : r.ReadsOnly s key key := by
  have chain : lookupChain key = [key] := by rw [lookupChain, own]
  constructor <;> rw [chain]
  · exact List.forall_mem_singleton.mpr raw
  · exact List.forall_mem_singleton.mpr fun other => absurd rfl other

/-- What a fix leaves under its key is what the key is then found to have. -/
theorem ReadsOnly.resolve_evaluate {fix : Fix} (h : r.ReadsOnly s key fix.key)
    (consistent : r.graph.Consistent) (member : fix.key ∈ lookupChain key) :
    (Operand.key key).resolve (r.evaluate (fix.apply s)) = fix.value? := by
  have own : (r.evaluate (fix.apply s))[fix.key]? = fix.value? := by
    rw [evaluate, consistent.getElem?_evaluate_of_unwritten (h.raw _ member), fix.getElem?_apply_self]
  have other : ∀ k ∈ lookupChain key, k ≠ fix.key → (r.evaluate (fix.apply s))[k]? = none := by
    intro k looked ne
    rw [evaluate, consistent.getElem?_evaluate_of_unwritten (h.raw k looked),
      fix.getElem?_apply_of_ne s ne, h.unset k looked ne]
  rw [Operand.resolve]
  cases value : fix.value? with
  | none =>
      refine List.findSome?_eq_none_iff.mpr fun k looked => ?_
      by_cases same : k = fix.key
      · rw [same, own, value]
      · exact other k looked same
  | some v =>
      obtain ⟨before, after, split, first⟩ := List.eq_append_cons_of_mem member
      refine List.findSome?_eq_some_iff.mpr ⟨before, fix.key, after, split, own.trans value, ?_⟩
      intro k early
      exact other k (split ▸ List.mem_append_left _ early) fun same => first (same ▸ early)

/-- Whether a key is that of a feature or of a choice that is turned on and off. -/
def isSwitch (key : String) : Bool :=
  (Text.afterStart? key "features.").isSome || toggleStarts.any (Text.startsWith key)

/-- Whether the fix of a comparison has a value to give that passes. -/
def IsFixable (r : Ruleset) (key : String) (t : Test) : Prop :=
  if isSwitch key then t.IsSwitchable
  else (r.choices? key).isSome = true ∨ t.accepts none = true ∨ t.IsReached

theorem hasTarget_skill (compiled : r.IsCompiled) {name : String}
    (known : r.catalog.contains "skills" name = true) :
    r.graph.hasTarget ("skills." ++ name) = true := by
  have listed : name ∈ r.catalog.names "skills" :=
    Std.TreeMap.mem_keys.mpr (Std.TreeMap.mem_iff_isSome_getElem?.mpr known)
  let skill := Ability.ofSkill name
  refine compiled.hasTarget (x := .computed skill.die skill.step Ability.dieFormula) ?_
  have own : RuleText.computed skill.die skill.step Ability.dieFormula ∈
      (r.catalog.names "skills").flatMap (skillRules r.catalog) :=
    List.mem_flatMap.mpr ⟨name, listed, List.mem_append_left _ (.tail _ (.head _))⟩
  exact List.mem_append_left _ (List.mem_append_left _ (List.mem_append_right _ own))

theorem hasTarget_attribute (compiled : r.IsCompiled) {name : String}
    (known : name ∈ r.catalog.names "attributes") :
    r.graph.hasTarget (Ability.attributeKey name) = true := by
  let a := Ability.ofAttribute name
  refine compiled.hasTarget (x := .computed a.die a.step Ability.dieFormula) ?_
  have own : RuleText.computed a.die a.step Ability.dieFormula ∈
      (r.catalog.names "attributes").flatMap attributeRules :=
    List.mem_flatMap.mpr ⟨name, known, .tail _ (.tail _ (.head _))⟩
  exact List.mem_append_left _ (List.mem_append_left _ (List.mem_append_left _
    (List.mem_append_right _ own)))

/-- The die of an ability is written by a rule, so a fix for a key that no rule writes changes something
that the key is looked up by, and leaves there what passes if anything does that is given it. -/
theorem Plans.accepts_iff (compiled : r.IsCompiled) (raw : r.graph.hasTarget key = false)
    {sheet : Snapshot} {t : Test} {fix : Fix} (planned : r.Plans sheet key t fix) :
    fix.key ∈ lookupChain key ∧ (Text.afterStart? key "features." = none → fix.key = key) ∧
      (t.accepts fix.value? = true ↔ r.IsFixable key t) := by
  have first : key ∈ lookupChain key := by
    rw [lookupChain]
    split <;> exact List.mem_cons_self
  have plain : Text.afterStart? key "features." = none →
      toggleStarts.any (Text.startsWith key) = false → isSwitch key = false := by
    intro own still
    rw [isSwitch, own, still]
    rfl
  cases planned with
  | @feature name choice named granted =>
      have switched : isSwitch key = true := by rw [isSwitch, named]; rfl
      rw [Fix.key_toggle, IsFixable, if_pos switched]
      exact ⟨mem_lookupChain_of_featureToggle? named granted,
        fun own => (Option.some_ne_none name (named.symm.trans own)).elim,
        Fix.accepts_toggle_iff choice t⟩
  | switch own start =>
      have switched : isSwitch key = true := by rw [isSwitch, start, Bool.or_true]
      rw [Fix.key_toggle, IsFixable, if_pos switched]
      exact ⟨first, fun _ => rfl, Fix.accepts_toggle_iff key t⟩
  -- a rule writes the die of an ability, so this and the next fix are not planned for a raw key
  | skillDie named known bought =>
      rw [named, hasTarget_skill compiled known] at raw
      cases raw
  | attributeDie named known bought =>
      rw [named, hasTarget_attribute compiled known] at raw
      cases raw
  | choice own still few drawn =>
      obtain ⟨same, passes⟩ := of_fixChoice? drawn
      rw [same, IsFixable, if_neg (Bool.eq_false_iff.mp (plain own still)), few]
      exact ⟨first, fun _ => rfl, iff_of_true passes (.inl rfl)⟩
  | plain own still many planned =>
      obtain ⟨same, reached⟩ := of_fixPlain? planned
      rw [same, IsFixable, if_neg (Bool.eq_false_iff.mp (plain own still)), many]
      exact ⟨first, fun _ => rfl, reached.trans (or_iff_right Bool.false_ne_true).symm⟩

/-- A planned fix for a key that no rule writes makes the comparison hold exactly if the fix has a value
to give that passes. A feature has no value of its own then, and shows what the fix changes only if the
selection holds nothing else that is looked up for it. -/
theorem holds_apply_planFix_iff (compiled : r.IsCompiled) (s : Selection) (random : Random)
    {c : Comparison} (single : c.operand = .key key) (raw : r.graph.hasTarget key = false) {fix : Fix}
    (planned : (r.planFix c (r.evaluate s) random).1 = some fix)
    (alone : (Text.afterStart? key "features.").isSome = true → r.ReadsOnly s key fix.key) :
    c.holds (r.evaluate (fix.apply s)) = true ↔ r.IsFixable key c.test := by
  obtain ⟨member, same, passes⟩ := (plans_of_planFix single planned).accepts_iff compiled raw
  have reads : r.ReadsOnly s key fix.key := by
    cases own : Text.afterStart? key "features." with
    | none =>
        rw [same own]
        exact readsOnly_self own raw
    | some name => exact alone (own ▸ rfl)
  rw [Comparison.holds, single, reads.resolve_evaluate compiled.built.consistent member]
  exact passes

end

/-- Armor that asks for more luck than five and for a shield that counts twice. -/
def guardedPlate : Catalog :=
  .ofSource {("armors", {("Plate", "Require=\"luck > 5, armors.Shield == 2\"")})}

def moreLuck : Comparison := ⟨.key "luck", .compare .gt (.number 5)⟩

def twoShields : Comparison := ⟨.key "armors.Shield", .compare .eq (.number 2)⟩

/-- Plate and a shield. -/
def plateAndShield : Selection := {("armors.Plate", .number 1), ("armors.Shield", .number 1)}

theorem exists_ofCatalog_guardedPlate : ∃ r, ofCatalog guardedPlate = .ok r ∧
    moreLuck.holds (r.evaluate plateAndShield) = false ∧
    twoShields.holds (r.evaluate plateAndShield) = false ∧
    (r.planFix moreLuck (r.evaluate plateAndShield) (.ofSeed 1)).1.isSome = true ∧
    r.graph.hasTarget "luck" = false ∧ r.graph.hasTarget "armors.Shield" = false := by
  have fit : KeysFit guardedPlate := by decide +kernel
  exact ⟨assembledOf guardedPlate, ofCatalog_eq_of_keysFit fit, by decide +kernel⟩

/-- The luck is set to six. -/
theorem exists_planFix_moreLuck : ∃ r fix, ofCatalog guardedPlate = .ok r ∧
    r.graph.hasTarget "luck" = false ∧ moreLuck.holds (r.evaluate plateAndShield) = false ∧
    (r.planFix moreLuck (r.evaluate plateAndShield) (.ofSeed 1)).1 = some fix ∧
    moreLuck.holds (r.evaluate (fix.apply plateAndShield)) = true := by
  obtain ⟨r, compiled, fails, -, some, raw, -⟩ := exists_ofCatalog_guardedPlate
  obtain ⟨fix, planned⟩ := Option.isSome_iff_exists.mp some
  refine ⟨r, fix, compiled, raw, fails, planned, ?_⟩
  refine (holds_apply_planFix_iff (isCompiled_of_ofCatalog compiled) _ _ rfl raw planned ?_).mpr ?_
  · intro feature
    exact absurd feature (by decide)
  · rw [IsFixable, if_neg (by decide)]
    exact .inr (.inr (Test.isReached_of_toInt? (z := 5) rfl (Number.isExact_of_lt (by decide))
      (Number.isExact_of_lt (by decide))))

/-- The shield is turned off, and then it does not count twice either. -/
theorem exists_planFix_twoShields : ∃ r fix, ofCatalog guardedPlate = .ok r ∧
    r.graph.hasTarget "armors.Shield" = false ∧
    twoShields.holds (r.evaluate plateAndShield) = false ∧
    (r.planFix twoShields (r.evaluate plateAndShield) (.ofSeed 1)).1 = some fix ∧
    twoShields.holds (r.evaluate (fix.apply plateAndShield)) = false := by
  obtain ⟨r, compiled, -, fails, -, -, raw⟩ := exists_ofCatalog_guardedPlate
  have off : (r.planFix twoShields (r.evaluate plateAndShield) (.ofSeed 1)).1 =
      some (.remove "armors.Shield") := rfl
  refine ⟨r, _, compiled, raw, fails, off, ?_⟩
  have reads : r.ReadsOnly plateAndShield "armors.Shield" (Fix.remove "armors.Shield").key :=
    readsOnly_self rfl raw
  have consistent := (isCompiled_of_ofCatalog compiled).built.consistent
  rw [Comparison.holds, twoShields, reads.resolve_evaluate consistent List.mem_cons_self]
  decide

end Ruleset

end CharacterRules
