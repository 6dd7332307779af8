import CharacterRules.Proofs.Note.Target
import CharacterRules.Proofs.Text.Trim
import CharacterRules.Ruleset.Base

/-!
Skills that notes name. A phrase loses what is around the name of an attribute before it is looked up: a
remark at its end, points, and the word that makes it mean a step. A skill whose own name ends with one of
these is not named by it, though its step is named like that of every other skill.
-/

namespace CharacterRules

namespace TargetNames

/-- Whether a remark in parentheses stands at the end. -/
def EndsWithRemark (phrase : List Char) : Prop :=
  ∃ front inside, ')' ∉ inside ∧ phrase = front ++ '(' :: (inside ++ [')'])

/-- Whether the word for a step stands at the end, in any case, behind something else. -/
def EndsWithStep (phrase : List Char) : Prop :=
  ∃ base word, base ≠ [] ∧ sameLetters word " step".toList = true ∧ phrase = base ++ word

/-- A name that stays whole when it is read as a phrase. -/
structure IsPlainName (name : List Char) : Prop where
  noRemark : ¬ EndsWithRemark name
  noPoint : name.getLast? ≠ some '.'
  noStep : ¬ EndsWithStep name

theorem EndsWithRemark.getLast? {phrase : List Char} (h : EndsWithRemark phrase) :
    phrase.getLast? = some ')' := by
  obtain ⟨front, inside, -, rfl⟩ := h
  rw [← List.cons_append, ← List.append_assoc]
  exact List.getLast?_concat

theorem isSome_beforeRemark? {text : List Char} : (beforeRemark? text).isSome = true ↔
    ∃ inside front, ')' ∉ inside ∧ text = inside ++ '(' :: front := by
  induction text with
  | nil => simp [beforeRemark?]
  | cons c rest ih =>
      rw [beforeRemark?]
      by_cases closing : c = ')'
      · rw [if_pos (beq_iff_eq.mpr closing)]
        refine ⟨nofun, ?_⟩
        rintro ⟨inside | ⟨d, inside⟩, front, free, same⟩
        · exact absurd (closing.symm.trans (List.cons.inj same).1) (by decide)
        · refine absurd ?_ free
          rw [← (List.cons.inj same).1, closing]
          exact List.mem_cons_self
      · rw [if_neg (by simpa using closing)]
        -- the remark is as long as possible: a farther opening parenthesis wins over one at `c`
        cases found : beforeRemark? rest with
        | some before =>
            obtain ⟨inside, front, free, same⟩ := ih.mp (Option.isSome_of_eq_some found)
            refine ⟨fun _ => ⟨c :: inside, front, fun member => ?_, congrArg (c :: ·) same⟩, fun _ => rfl⟩
            cases List.mem_cons.mp member with
            | inl own => exact closing own.symm
            | inr inner => exact free inner
        | none =>
            have later : ¬ ∃ inside front, ')' ∉ inside ∧ rest = inside ++ '(' :: front := by
              rw [← ih, found]
              exact Bool.false_ne_true
            dsimp only
            by_cases opening : c = '('
            · rw [if_pos (beq_iff_eq.mpr opening), opening]
              exact ⟨fun _ => ⟨[], rest, List.not_mem_nil, rfl⟩, fun _ => rfl⟩
            · rw [if_neg (by simpa using opening)]
              refine ⟨nofun, ?_⟩
              rintro ⟨inside | ⟨d, inside⟩, front, free, same⟩
              · exact absurd (List.cons.inj same).1 opening
              · exact absurd ⟨inside, front, fun member => free (.tail d member), (List.cons.inj same).2⟩
                  later

theorem length_of_beforeRemark? {text before : List Char} (h : beforeRemark? text = some before) :
    before.length < text.length := by
  induction text with
  | nil => cases h
  | cons c rest ih =>
      rw [beforeRemark?] at h
      split at h
      · cases h
      · split at h
        · rename_i found
          cases h
          exact Nat.lt_succ_of_lt (ih found)
        · split at h
          · cases h
            exact Nat.lt_succ_of_le (List.dropWhile_suffix _).length_le
          · cases h

theorem endsWithRemark_concat_iff {start : List Char} {last : Char} :
    EndsWithRemark (start ++ [last]) ↔
      last = ')' ∧ (beforeRemark? start.reverse).isSome = true := by
  rw [isSome_beforeRemark?]
  constructor
  · rintro ⟨front, inside, free, same⟩
    rw [← List.cons_append, ← List.append_assoc] at same
    obtain ⟨rfl, ends⟩ := List.append_inj' same rfl
    exact ⟨(List.cons.inj ends).1, inside.reverse, front.reverse, by simpa using free, by simp⟩
  · rintro ⟨rfl, inside, front, free, same⟩
    refine ⟨front.reverse, inside.reverse, by simpa using free, ?_⟩
    rw [List.reverse_eq_iff.mp same]
    simp

section

variable {phrase : List Char} (trimmed : Text.IsTrimmed phrase)

include trimmed

/-- A remark is all that a trimmed phrase loses at first, and it loses one exactly if one is there. -/
theorem withoutRemark_cases :
    withoutRemark phrase = phrase ∧ ¬ EndsWithRemark phrase ∨
      (withoutRemark phrase).length < phrase.length ∧ EndsWithRemark phrase := by
  obtain ⟨-, d, -, last, -, visible⟩ := trimmed
  obtain ⟨start, rfl⟩ := List.getLast?_eq_some_iff.mp last
  have reversed : (start ++ [d]).reverse.dropWhile Unicode.isSpace = d :: start.reverse := by
    rw [List.reverse_append, List.reverse_singleton, List.singleton_append,
      List.dropWhile_cons_of_neg (Bool.eq_false_iff.mp visible)]
  rw [endsWithRemark_concat_iff]
  by_cases closing : d = ')'
  · subst closing
    have shape : withoutRemark (start ++ [')']) =
        ((beforeRemark? start.reverse).map List.reverse).getD (start ++ [')']) := by
      rw [withoutRemark, reversed]
      rfl
    rw [shape]
    cases found : beforeRemark? start.reverse with
    | none => exact .inl ⟨rfl, fun remark => Bool.false_ne_true remark.2⟩
    | some before =>
        have shorter := length_of_beforeRemark? found
        rw [List.length_reverse] at shorter
        refine .inr ⟨?_, rfl, rfl⟩
        rw [Option.map_some, Option.getD_some, List.length_reverse, List.length_append]
        exact Nat.lt_add_right _ shorter
  · refine .inl ⟨?_, fun remark => closing remark.1⟩
    rw [withoutRemark, reversed]
    split
    · rename_i same
      exact absurd (List.cons.inj same).1 closing
    · rfl

/-- A trimmed phrase stays as it is exactly if it keeps its length, that is, if neither a remark nor a
point stands at its end. -/
theorem bare_cases {name : String} (same : name.toList = phrase) :
    bare name = phrase ∧ ¬ EndsWithRemark phrase ∧ phrase.getLast? ≠ some '.' ∨
      (bare name).length < phrase.length ∧ (EndsWithRemark phrase ∨ phrase.getLast? = some '.') := by
  have whole := trimmed.trimChars_eq (.refl phrase)
  have shape : bare name = Text.dropEndWhile (· == '.') (Text.trimChars (withoutRemark phrase)) := by
    rw [bare, same, whole]
  rcases withoutRemark_cases trimmed with ⟨kept, plain⟩ | ⟨shorter, remark⟩
  · rw [kept, whole] at shape
    rw [shape]
    obtain ⟨-, d, -, last, -, -⟩ := trimmed
    obtain ⟨start, rfl⟩ := List.getLast?_eq_some_iff.mp last
    by_cases point : d = '.'
    · refine .inr ⟨?_, .inr (last.trans (congrArg some point))⟩
      have dropped := (List.dropWhile_suffix (· == '.') (l := start.reverse)).length_le
      simp only [List.length_reverse] at dropped
      simp only [Text.dropEndWhile, List.reverse_append, List.reverse_singleton, List.singleton_append,
        point, beq_self_eq_true, List.dropWhile_cons_of_pos, List.length_reverse, List.length_append]
      exact Nat.lt_succ_of_le dropped
    · refine .inl ⟨?_, plain, ?_⟩
      · simp [Text.dropEndWhile, point]
      · rw [last]
        exact fun own => point (Option.some.inj own)
  · refine .inr ⟨?_, .inl remark⟩
    rw [shape]
    exact Nat.lt_of_le_of_lt (Nat.le_trans (Text.dropEndWhile_isPrefix _ _).length_le
      (Text.trimChars_isInfix _).length_le) shorter

end

theorem stepped?_append {base word : List Char} (nonempty : base ≠ [])
    (step : sameLetters word " step".toList = true) :
    stepped? (base ++ word) = some (Text.trimChars base) := by
  have long : word.length = 5 := by
    have lengths := congrArg List.length (beq_iff_eq.mp step)
    simpa using lengths
  have front : (base ++ word).take ((base ++ word).length - 5) = base := by
    rw [List.length_append, long, Nat.add_sub_cancel, List.take_left]
  have begins : base.isEmpty = false := by simpa using nonempty
  rw [stepped?, front, List.drop_left, begins, step]
  rfl

/-- A phrase means a step exactly if the word for it stands at its end. -/
theorem stepped?_eq_none_iff {phrase : List Char} : stepped? phrase = none ↔ ¬ EndsWithStep phrase := by
  constructor
  · rintro none ⟨base, word, nonempty, step, rfl⟩
    rw [stepped?_append nonempty step] at none
    cases none
  · intro plain
    rw [stepped?]
    refine if_neg fun step => plain ?_
    obtain ⟨nonempty, step⟩ := Bool.and_eq_true_iff.mp step
    refine ⟨phrase.take (phrase.length - 5), _, fun none => ?_, step, ?_⟩
    · rw [none] at nonempty
      cases nonempty
    have cut : (phrase.take (phrase.length - 5)).length = phrase.length - 5 :=
      List.length_take_of_le (Nat.sub_le _ _)
    rw [cut, List.take_append_drop]

theorem sameLetters_of_skill? {names : TargetNames} {phrase : List Char} {s : String}
    (h : names.skill? phrase = some s) : sameLetters s.toList phrase = true :=
  List.find?_some (p := fun s : String => sameLetters s.toList phrase) h

theorem length_of_skill? {names : TargetNames} {phrase : List Char} {s : String}
    (h : names.skill? phrase = some s) : s.toList.length = phrase.length := by
  have lengths := congrArg List.length (beq_iff_eq.mp (sameLetters_of_skill? h))
  simpa using lengths

theorem skill?_of_mem {names : TargetNames} {s : String} (known : s ∈ names.skills)
    (apart : ∀ t ∈ names.skills, sameLetters t.toList s.toList = true → t = s) :
    names.skill? s.toList = some s := by
  cases found : names.skill? s.toList with
  | none =>
      have others := List.find?_eq_none.mp found s (Std.TreeSet.mem_toList.mpr known)
      exact absurd (by simp [sameLetters]) others
  | some t => exact congrArg some (apart t (mem_skills_of_skill? found) (sameLetters_of_skill? found))

theorem capital_not_mem_of_attribute? {names : TargetNames} {phrase : List Char} {a : String}
    (h : names.attribute? phrase = some a) : 'M' ∉ a.toList := by
  rw [attribute?] at h
  split at h
  · rw [← Option.some.inj h, String.toList_ofList]
    exact Unicode.capital_not_mem_lowerAfter (by decide) [] phrase
  · cases h

/-- The modifier of an attribute is not that of a skill: the first capital of both keys is that of the
word, and behind it they differ in length. -/
theorem append_modifier_ne {a : String} (lower : 'M' ∉ a.toList) (s : String) :
    a ++ "Modifier" ≠ "skillModifier." ++ s := by
  intro same
  have free : ∀ c ∈ a.toList, (c != 'M') = true := fun c member =>
    bne_iff_ne.mpr fun own => lower (own ▸ member)
  have front := congrArg (fun t => (String.toList t).takeWhile (· != 'M')) same
  simp only [String.toList_append, List.takeWhile_append_of_pos free] at front
  have ability : a.toList.length = 5 := by simpa using congrArg List.length front
  have lengths := congrArg (fun t => (String.toList t).length) same
  simp only [String.toList_append, List.length_append, ability] at lengths
  simp at lengths
  omega

/-- Nothing but a skill has the modifier of a skill. -/
theorem skill?_of_canonicalize {names : TargetNames} {g : RuleGraph} {phrase s : String}
    (h : names.canonicalize g phrase = some ("skillModifier." ++ s)) :
    stepped? (bare phrase) = none ∧ names.skill? (bare phrase) = some s := by
  delta canonicalize at h
  dsimp only at h
  split at h
  · split at h
    -- the keys of steps and of modifiers differ behind the word that they have in common
    · have chars := congrArg (fun t => (String.toList t)[5]?) (Option.some.inj h)
      simp at chars
    · obtain ⟨a, found, same⟩ := Option.map_eq_some_iff.mp h
      have capital : 'M' ∈ ("skillModifier." ++ s).toList := by simp
      rw [← same, String.toList_append, List.mem_append] at capital
      cases capital with
      | inl own => exact absurd own (capital_not_mem_of_attribute? found)
      | inr own => exact absurd own (by decide)
  · rename_i whole
    refine ⟨whole, ?_⟩
    split at h
    · rename_i found
      have chars := congrArg String.toList (Option.some.inj h)
      rw [String.toList_append, String.toList_append, List.append_cancel_left_eq] at chars
      rw [found, String.toList_injective chars]
    · split at h
      · rename_i a found
        exact absurd (Option.some.inj h) (append_modifier_ne (capital_not_mem_of_attribute? found) s)
      · split at h
        · have point : '.' ∈ ("skillModifier." ++ s).toList := by simp
          rw [← Option.some.inj h] at point
          exact absurd point (Note.point_not_mem_attributeKey _)
        · cases h

section

variable {names : TargetNames} {s : String} (known : s ∈ names.skills)
  (apart : ∀ t ∈ names.skills, sameLetters t.toList s.toList = true → t = s)
  (trimmed : Text.IsTrimmed s.toList) (g : RuleGraph)

include known apart trimmed

theorem canonicalize_skill_step : names.canonicalize g (s ++ " step") = some ("skillStep." ++ s) := by
  have word : Text.IsTrimmed "step".toList := ⟨'s', 'p', rfl, rfl, by decide, by decide⟩
  have chars : (s ++ " step").toList = s.toList ++ " step".toList := String.toList_append
  have last : (s.toList ++ " step".toList).getLast? = some 'p' := by simp
  have kept : bare (s ++ " step") = s.toList ++ " step".toList := by
    rcases bare_cases (trimmed.append word [' ']) chars with ⟨kept, -⟩ | ⟨-, remark | point⟩
    · exact kept
    · exact absurd (last.symm.trans remark.getLast?) (by decide)
    · exact absurd (last.symm.trans point) (by decide)
  have base : stepped? (s.toList ++ " step".toList) = some (Text.trimChars s.toList) :=
    stepped?_append trimmed.ne_nil (by decide)
  delta canonicalize
  rw [kept]
  dsimp only
  rw [base, trimmed.trimChars_eq (.refl _)]
  dsimp only
  rw [skill?_of_mem known apart]

theorem canonicalize_skill_iff :
    names.canonicalize g s = some ("skillModifier." ++ s) ↔ IsPlainName s.toList := by
  constructor
  · intro named
    obtain ⟨whole, found⟩ := skill?_of_canonicalize named
    rcases bare_cases trimmed rfl with ⟨kept, remark, point⟩ | ⟨shorter, -⟩
    · rw [kept] at whole
      exact ⟨remark, point, stepped?_eq_none_iff.mp whole⟩
    · exact absurd (length_of_skill? found) (Nat.ne_of_gt shorter)
  · intro plain
    rcases bare_cases trimmed rfl with ⟨kept, -⟩ | ⟨-, remark | point⟩
    · delta canonicalize
      rw [kept]
      dsimp only
      rw [stepped?_eq_none_iff.mpr plain.noStep]
      dsimp only
      rw [skill?_of_mem known apart]
    · exact absurd remark plain.noRemark
    · exact absurd point plain.noPoint

end

theorem mem_skills_foldl_addSkill {names : TargetNames} {skills : List String} {s : String} :
    s ∈ (skills.foldl addSkill names).skills ↔ s ∈ skills ∨ s ∈ names.skills := by
  induction skills generalizing names with
  | nil => simp
  | cons t rest ih =>
      rw [List.foldl_cons, ih, addSkill]
      rw [Std.TreeSet.mem_insert, Std.LawfulEqCmp.compare_eq_iff_eq, List.mem_cons, @eq_comm _ t s]
      exact or_left_comm.trans or_assoc.symm

end TargetNames

namespace Ruleset

open TargetNames

/-- The skills that notes can name are those of the catalog. -/
theorem mem_skills_targetNames {c : Catalog} {s : String} :
    s ∈ (targetNames c).skills ↔ s ∈ c.names "skills" := by
  have attributes : ∀ (all : List String) (names : TargetNames),
      (all.foldl addAttribute names).skills = names.skills := by
    intro all
    induction all with
    | nil => exact fun names => rfl
    | cons a rest ih => exact fun names => ih _
  have stats : ∀ (all : List String) (names : TargetNames),
      (all.foldl addStat names).skills = names.skills := by
    intro all
    induction all with
    | nil => exact fun names => rfl
    | cons a rest ih => exact fun names => ih _
  rw [targetNames, stats, mem_skills_foldl_addSkill, attributes]
  simp

/-- The skills of a catalog have names, without white space around them and with no two alike up to the
case of ASCII letters. -/
structure HasSkillNames (c : Catalog) : Prop where
  nonempty : ∀ s ∈ c.names "skills", s ≠ ""
  trimmed : ∀ s ∈ c.names "skills", Text.trim s = s
  apart : ∀ s ∈ c.names "skills", ∀ t ∈ c.names "skills",
    sameLetters s.toList t.toList = true → s = t

instance (c : Catalog) : Decidable (HasSkillNames c) :=
  decidable_of_iff
    ((∀ s ∈ c.names "skills", s ≠ "") ∧ (∀ s ∈ c.names "skills", Text.trim s = s) ∧
      ∀ s ∈ c.names "skills", ∀ t ∈ c.names "skills",
        sameLetters s.toList t.toList = true → s = t)
    ⟨fun ⟨nonempty, trimmed, apart⟩ => ⟨nonempty, trimmed, apart⟩,
      fun ⟨nonempty, trimmed, apart⟩ => ⟨nonempty, trimmed, apart⟩⟩

/-- A note names the step of every skill of a catalog, and the skill itself exactly if its name does not
end with a remark, with a point, or with the word for a step. -/
theorem canonicalize_skill {c : Catalog} (h : HasSkillNames c) {s : String}
    (known : s ∈ c.names "skills") (g : RuleGraph) :
    (targetNames c).canonicalize g (s ++ " step") = some ("skillStep." ++ s) ∧
      ((targetNames c).canonicalize g s = some ("skillModifier." ++ s) ↔ IsPlainName s.toList) := by
  have member : s ∈ (targetNames c).skills := mem_skills_targetNames.mpr known
  have apart : ∀ t ∈ (targetNames c).skills, sameLetters t.toList s.toList = true → t = s :=
    fun t other => h.apart t (mem_skills_targetNames.mp other) s known
  have whole : Text.trimChars s.toList = s.toList := by
    have chars := congrArg String.toList (h.trimmed s known)
    rwa [Text.trim, String.toList_ofList] at chars
  have trimmed : Text.IsTrimmed s.toList := by
    rw [← whole]
    refine Text.isTrimmed_trimChars fun none => h.nonempty s known ?_
    rw [whole] at none
    exact String.toList_inj.mp none
  exact ⟨canonicalize_skill_step member apart trimmed g, canonicalize_skill_iff member apart trimmed g⟩

/-- Skills of which one has the name of another one's step, and one ends with a remark. -/
def quickCatalog : Catalog :=
  .ofSource {("skills", {("Éclat", ""), ("Knowledge (Battle)", ""), ("Quick", ""), ("Quick step", "")})}

theorem canonicalize_eclatSkill : HasSkillNames quickCatalog ∧ "Éclat" ∈ quickCatalog.names "skills" ∧
    (targetNames quickCatalog).canonicalize {} "Éclat step" = some "skillStep.Éclat" ∧
    (targetNames quickCatalog).canonicalize {} "Éclat" = some "skillModifier.Éclat" := by
  have named : HasSkillNames quickCatalog := by decide +kernel
  have known : "Éclat" ∈ quickCatalog.names "skills" := by decide +kernel
  have plain : IsPlainName "Éclat".toList :=
    ⟨fun remark => absurd remark.getLast? (by decide), by decide, stepped?_eq_none_iff.mp (by decide)⟩
  obtain ⟨step, modifier⟩ := canonicalize_skill named known {}
  exact ⟨named, known, step, modifier.mpr plain⟩

/-- The skill is not named, but the step of the other one; and a remark is not part of a name. -/
theorem canonicalize_quickStep : HasSkillNames quickCatalog ∧
    "Quick step" ∈ quickCatalog.names "skills" ∧
    (targetNames quickCatalog).canonicalize {} "Quick step" = some "skillStep.Quick" ∧
    "Knowledge (Battle)" ∈ quickCatalog.names "skills" ∧
    (targetNames quickCatalog).canonicalize {} "Knowledge (Battle)" = none := by
  decide +kernel

end Ruleset
end CharacterRules
