import CharacterRules.Catalog.Entry
import CharacterRules.Proofs.Text.Trim
import CharacterRules.Proofs.Unicode.Case
import Mathlib.Data.List.TakeWhile

/-!
The tokens of attribute lists. Each token has a form, and a text that begins with a text of that form
is divided there, if what is behind it does not continue it.
-/

namespace CharacterRules.Entry

/-- What may stand between double quotes, with the text that it stands for. -/
inductive IsEscaped : List Char → List Char → Prop
  | nil : IsEscaped [] []
  | plain {c : Char} {inside value : List Char} (own : c ≠ '"' ∧ c ≠ '\\')
      (more : IsEscaped inside value) : IsEscaped (c :: inside) (c :: value)
  | escape {c : Char} {inside value : List Char} (own : c ≠ '\n')
      (more : IsEscaped inside value) : IsEscaped ('\\' :: c :: inside) (c :: value)

/-- The name of a field. -/
def IsFieldName (name : List Char) : Prop := name ≠ [] ∧ ∀ c ∈ name, isNameChar c = true

/-- A run of white space, which may be empty. -/
def IsBlank (text : List Char) : Prop := ∀ c ∈ text, Unicode.isSpace c = true

theorem readQuoted?_of_isEscaped {inside value : List Char} (h : IsEscaped inside value)
    (rest : List Char) :
    readQuoted? (inside ++ '"' :: rest) = some (value, inside.length + 1) := by
  induction h with
  | nil => cases rest <;> rfl
  | @plain c inside value own _ ih =>
      obtain ⟨d, behind, whole⟩ : ∃ d behind, inside ++ '"' :: rest = d :: behind := by
        cases inside <;> exact ⟨_, _, rfl⟩
      rw [whole] at ih
      simp only [List.cons_append, whole, readQuoted?, beq_iff_eq, own.1, own.2, if_false, ih,
        Option.map_some, List.length_cons]
  | @escape c inside value own _ ih =>
      simp only [List.cons_append, readQuoted?, beq_iff_eq, own, if_false, ih, if_true,
        Option.map_some, List.length_cons, show '\\' ≠ '"' by decide]

theorem exists_of_readQuoted? {text value : List Char} {length : Nat}
    (h : readQuoted? text = some (value, length)) :
    ∃ inside rest, text = inside ++ '"' :: rest ∧ length = inside.length + 1 ∧
      IsEscaped inside value := by
  fun_induction readQuoted? text generalizing value length with
  | case1 => cases h
  | case2 c quote =>
      cases h
      exact ⟨[], [], by rw [eq_of_beq quote]; rfl, rfl, .nil⟩
  | case3 => cases h
  | case4 c d rest quote =>
      cases h
      exact ⟨[], d :: rest, by rw [eq_of_beq quote]; rfl, rfl, .nil⟩
  | case5 => cases h
  | case6 c d rest plain backslash own ih =>
      obtain ⟨⟨inner, n⟩, found, same⟩ := Option.map_eq_some_iff.mp h
      cases same
      obtain ⟨inside, behind, rfl, rfl, escaped⟩ := ih found
      obtain rfl := eq_of_beq backslash
      exact ⟨'\\' :: d :: inside, behind, rfl, rfl,
        .escape (fun same => own (beq_iff_eq.mpr same)) escaped⟩
  | case7 c d rest plain other ih =>
      obtain ⟨⟨inner, n⟩, found, same⟩ := Option.map_eq_some_iff.mp h
      cases same
      obtain ⟨inside, behind, whole, rfl, escaped⟩ := ih found
      exact ⟨c :: inside, behind, by rw [whole, List.cons_append], rfl,
        .plain ⟨fun same => plain (beq_iff_eq.mpr same),
          fun same => other (beq_iff_eq.mpr same)⟩ escaped⟩

/-- A text that begins with a token, and what is behind the token. -/
inductive Begins : List Char → Token → List Char → Prop
  | space {blank rest : List Char} (nonempty : blank ≠ []) (spaces : IsBlank blank)
      (stop : ∀ c ∈ rest.head?, Unicode.isSpace c = false) : Begins (blank ++ rest) .space rest
  | comma {rest : List Char} : Begins (',' :: rest) .comma rest
  | quoted {inside value rest : List Char} (escaped : IsEscaped inside value) :
      Begins ('"' :: (inside ++ '"' :: rest)) (.quoted (String.ofList value)) rest
  | field {name rest : List Char} (named : IsFieldName name) :
      Begins (name ++ '=' :: rest) (.field (String.ofList name)) rest
  | bare {text rest : List Char} (nonempty : text ≠ []) (plain : ∀ c ∈ text, isBareChar c = true)
      (stop : ∀ c ∈ rest.head?, isBareChar c = false)
      (other : rest.head? = some '=' → ¬IsFieldName text) :
      Begins (text ++ rest) (.bare (String.ofList text)) rest

theorem isBareChar_iff {c : Char} : isBareChar c = true ↔
    Unicode.isSpace c = false ∧ c ≠ ',' ∧ c ≠ '"' ∧ c ≠ '=' := by
  simp [isBareChar, and_assoc]

theorem isBareChar_of_isNameChar {c : Char} (h : isNameChar c = true) : isBareChar c = true := by
  rw [isNameChar, Bool.or_eq_true, beq_iff_eq] at h
  obtain letter | rfl := h
  · exact Unicode.of_isAlphanum (P := fun c => isBareChar c = true) (by decide) letter
  · decide

theorem token_of_begins {text rest : List Char} {t : Token} (h : Begins text t rest) :
    ∃ c behind length, text = c :: behind ∧ token c behind = (t, length) ∧
      behind.drop length = rest := by
  cases h with
  | @space blank _ nonempty spaces stop =>
      obtain ⟨c, blank, rfl⟩ := List.exists_cons_of_ne_nil nonempty
      obtain ⟨own, later⟩ := List.forall_mem_cons.mp spaces
      refine ⟨c, blank ++ rest, blank.length, rfl, ?_, List.drop_left⟩
      rw [token, if_pos own, Text.takeWhile_append_of_stop later stop]
  | comma => exact ⟨',', rest, 0, rfl, rfl, rfl⟩
  | @quoted inside value _ escaped =>
      refine ⟨'"', inside ++ '"' :: rest, inside.length + 1, rfl, ?_, ?_⟩
      · simp only [token, readQuoted?_of_isEscaped escaped]
        rfl
      · rw [← List.drop_drop, List.drop_left]
        rfl
  | @field name _ named =>
      obtain ⟨nonempty, all⟩ := named
      obtain ⟨c, name, rfl⟩ := List.exists_cons_of_ne_nil nonempty
      obtain ⟨own, later⟩ := List.forall_mem_cons.mp all
      obtain ⟨visible, comma, quote, equals⟩ := isBareChar_iff.mp (isBareChar_of_isNameChar own)
      refine ⟨c, name ++ '=' :: rest, name.length + 1, rfl, ?_, ?_⟩
      · have bare : (name ++ '=' :: rest).takeWhile isBareChar = name :=
          Text.takeWhile_append_of_stop (fun d hd => isBareChar_of_isNameChar (later d hd))
            (by rintro d ⟨⟩; rfl)
        have named : (c :: name).all isNameChar = true := List.all_eq_true.mpr all
        simp only [token, visible, beq_iff_eq, comma, quote, equals, if_false, Bool.false_eq_true,
          bare, named, Bool.true_and, List.drop_left, List.head?_cons, BEq.rfl, if_true]
      · rw [← List.drop_drop, List.drop_left]
        rfl
  | @bare text _ nonempty plain stop other =>
      obtain ⟨c, text, rfl⟩ := List.exists_cons_of_ne_nil nonempty
      obtain ⟨own, later⟩ := List.forall_mem_cons.mp plain
      obtain ⟨visible, comma, quote, equals⟩ := isBareChar_iff.mp own
      refine ⟨c, text ++ rest, text.length, rfl, ?_, List.drop_left⟩
      have bare : (text ++ rest).takeWhile isBareChar = text := Text.takeWhile_append_of_stop later stop
      have unnamed : ((c :: text).all isNameChar && rest.head? == some '=') = false := by
        refine Bool.eq_false_iff.mpr fun named => ?_
        rw [Bool.and_eq_true, beq_iff_eq, List.all_eq_true] at named
        exact other named.2 ⟨nonempty, named.1⟩
      simp only [token, visible, beq_iff_eq, comma, quote, equals, if_false, Bool.false_eq_true,
        bare, List.drop_left, unnamed]

theorem drop_length_takeWhile (p : Char → Bool) (text : List Char) :
    text.drop (text.takeWhile p).length = text.dropWhile p := by
  induction text with
  | nil => rfl
  | cons c text ih =>
      cases h : p c with
      | false => simp only [List.takeWhile_cons, List.dropWhile_cons, h, Bool.false_eq_true,
          if_false, List.length_nil, List.drop_zero]
      | true => simp only [List.takeWhile_cons, List.dropWhile_cons, h, if_true, List.length_cons,
          List.drop_succ_cons, ih]

theorem head?_dropWhile_stop (p : Char → Bool) (text : List Char) :
    ∀ c ∈ (text.dropWhile p).head?, p c = false := by
  intro c member
  have stop := List.head?_dropWhile_not p text
  rw [Option.mem_def.mp member] at stop
  exact stop

theorem begins_space {c : Char} (h : Unicode.isSpace c = true) (rest : List Char) :
    Begins (c :: rest) .space (rest.dropWhile Unicode.isSpace) := by
  have whole : c :: rest =
      (c :: rest.takeWhile Unicode.isSpace) ++ rest.dropWhile Unicode.isSpace := by
    rw [List.cons_append, List.takeWhile_append_dropWhile]
  rw [whole]
  refine .space (List.cons_ne_nil _ _) ?_ (head?_dropWhile_stop _ _)
  exact List.forall_mem_cons.mpr ⟨h, fun d hd => (List.mem_takeWhile_imp hd)⟩

/-- A token that is not bad is what the text begins with. -/
theorem begins_token {c : Char} {rest : List Char} {t : Token} {length : Nat}
    (h : token c rest = (t, length)) : (∃ fault, t = .bad fault) ∨
      Begins (c :: rest) t (rest.drop length) := by
  rw [token] at h
  split at h
  · rename_i space
    cases h
    rw [drop_length_takeWhile]
    exact .inr (begins_space space rest)
  · rename_i visible
    split at h
    · rename_i comma
      cases h
      rw [eq_of_beq comma]
      exact .inr .comma
    · rename_i comma
      split at h
      · rename_i quote
        rw [eq_of_beq quote]
        split at h
        · rename_i value length found
          cases h
          obtain ⟨inside, behind, rfl, rfl, escaped⟩ := exists_of_readQuoted? found
          rw [← List.drop_drop, List.drop_left]
          exact .inr (.quoted escaped)
        · cases h
          exact .inl ⟨_, rfl⟩
      · rename_i quote
        split at h
        · cases h
          exact .inl ⟨_, rfl⟩
        · rename_i equals
          -- what is left is a value without quotes, or with an equals sign behind it a field
          have bare : isBareChar c = true := by
            simp only [beq_iff_eq] at comma quote equals
            exact isBareChar_iff.mpr ⟨Bool.eq_false_iff.mpr visible, comma, quote, equals⟩
          have whole : c :: rest = (c :: rest.takeWhile isBareChar) ++ rest.dropWhile isBareChar := by
            rw [List.cons_append, List.takeWhile_append_dropWhile]
          dsimp only at h
          rw [drop_length_takeWhile] at h
          split at h
          · rename_i named
            cases h
            rw [Bool.and_eq_true, beq_iff_eq] at named
            obtain ⟨behind, after⟩ := List.head?_eq_some_iff.mp named.2
            rw [← List.drop_drop, drop_length_takeWhile, whole, after]
            exact .inr (.field ⟨List.cons_ne_nil _ _, List.all_eq_true.mp named.1⟩)
          · rename_i unnamed
            cases h
            rw [drop_length_takeWhile, whole]
            refine .inr (.bare (List.cons_ne_nil _ _) ?_ (head?_dropWhile_stop _ _) ?_)
            · exact List.forall_mem_cons.mpr ⟨bare, fun d hd => List.mem_takeWhile_imp hd⟩
            · rintro next ⟨-, named⟩
              refine unnamed ?_
              rw [Bool.and_eq_true, beq_iff_eq]
              exact ⟨List.all_eq_true.mpr named, next⟩

end CharacterRules.Entry
