import CharacterRules.Proofs.Note.Outline
import CharacterRules.Proofs.Text.Trim
import Mathlib.Data.List.TakeWhile

/-!
Placeholders of a text and of its clauses. A slash inside of a placeholder divides no clauses, and
none begins or ends with white space; so the placeholders of a note are those of its clauses, one
clause after another.
-/

namespace CharacterRules.Note

/-- The inside of a placeholder that a text begins with, and what follows it. -/
def opened? : List Char → Option (List Char × List Char)
  | '%' :: '\x7b' :: rest =>
    match rest.takeWhile (· != '\x7d'), rest.dropWhile (· != '\x7d') with
    | [], _ => none
    | inside, _ :: after => some (inside, after)
    | _, [] => none
  | _ => none

theorem takeWhile_open {inside : List Char} (free : '\x7d' ∉ inside) (after : List Char) :
    (inside ++ '\x7d' :: after).takeWhile (· != '\x7d') = inside := by
  have inner : ∀ c ∈ inside, (c != '\x7d') = true := fun c member =>
    bne_iff_ne.mpr fun same => free (same ▸ member)
  rw [List.takeWhile_append_of_pos inner, List.takeWhile_cons_of_neg (by decide), List.append_nil]

theorem dropWhile_open {inside : List Char} (free : '\x7d' ∉ inside) (after : List Char) :
    (inside ++ '\x7d' :: after).dropWhile (· != '\x7d') = '\x7d' :: after := by
  have inner : ∀ c ∈ inside, (c != '\x7d') = true := fun c member =>
    bne_iff_ne.mpr fun same => free (same ▸ member)
  rw [List.dropWhile_append_of_pos inner, List.dropWhile_cons_of_neg (by decide)]

/-- A text begins with a placeholder if it has a mark and an opening brace, an inside without closing
brace that is not empty, and a closing brace. -/
theorem opened?_eq_some {text inside after : List Char} : opened? text = some (inside, after) ↔
    text = '%' :: '\x7b' :: (inside ++ '\x7d' :: after) ∧ inside ≠ [] ∧ '\x7d' ∉ inside := by
  constructor
  · intro h
    rw [opened?.eq_def] at h
    split at h
    · rename_i rest
      have whole := List.takeWhile_append_dropWhile (p := (· != '\x7d')) (l := rest)
      have closing := List.head?_dropWhile_not (· != '\x7d') rest
      have free : '\x7d' ∉ rest.takeWhile (· != '\x7d') := fun member =>
        absurd (List.mem_takeWhile_imp member) (by decide)
      split at h
      · cases h
      · rename_i c dropped second first
        cases h
        rw [second] at whole closing
        obtain rfl : c = '\x7d' := by simpa using closing
        exact ⟨by rw [whole], first, free⟩
      · cases h
    · cases h
  · rintro ⟨rfl, nonempty, free⟩
    rw [opened?, takeWhile_open free, dropWhile_open free]
    cases inside with
    | nil => exact absurd rfl nonempty
    | cons c rest => rfl

theorem length_of_opened? {text inside after : List Char} (h : opened? text = some (inside, after)) :
    text.length = after.length + inside.length + 3 := by
  rw [(opened?_eq_some.mp h).1]
  simp only [List.length_cons, List.length_append]
  omega

theorem opened?_eq_none_iff {text : List Char} : opened? text = none ↔
    ∀ inside after, inside ≠ [] → '\x7d' ∉ inside →
      text ≠ '%' :: '\x7b' :: (inside ++ '\x7d' :: after) := by
  rw [Option.eq_none_iff_forall_ne_some]
  constructor
  · intro h inside after nonempty free same
    exact h (inside, after) (opened?_eq_some.mpr ⟨same, nonempty, free⟩)
  · rintro h ⟨inside, after⟩ found
    obtain ⟨same, nonempty, free⟩ := opened?_eq_some.mp found
    exact h inside after nonempty free same

/-- An induction along a text that takes a placeholder in one step. -/
theorem placeholder_induction {P : List Char → Prop} (nil : P [])
    (plain : ∀ c rest, opened? (c :: rest) = none → P rest → P (c :: rest))
    (opened : ∀ text inside after, opened? text = some (inside, after) → P after → P text)
    (text : List Char) : P text := by
  induction h : text.length using Nat.strong_induction_on generalizing text with
  | _ n ih =>
      subst h
      cases text with
      | nil => exact nil
      | cons c rest =>
          cases found : opened? (c :: rest) with
          | none => exact plain c rest found (ih _ (Nat.lt_succ_self _) rest rfl)
          | some x =>
              have length := length_of_opened? found
              exact opened _ _ _ found (ih _ (by omega) x.2 rfl)

theorem findPlaceholder?_cons (c : Char) (rest : List Char) : findPlaceholder? (c :: rest) =
    match opened? (c :: rest) with
    | some (inside, after) => some ([], inside, after)
    | none =>
      (findPlaceholder? rest).map fun (before, inside, after) => (c :: before, inside, after) := by
  by_cases mark : ∃ more, c = '%' ∧ rest = '\x7b' :: more
  · obtain ⟨more, rfl, rfl⟩ := mark
    rw [findPlaceholder?, opened?]
    cases more.takeWhile (· != '\x7d') <;> cases more.dropWhile (· != '\x7d') <;> rfl
  · have closed : opened? (c :: rest) = none := by
      refine opened?_eq_none_iff.mpr fun inside after _ _ same => ?_
      cases same
      exact mark ⟨_, rfl, rfl⟩
    rw [findPlaceholder?, closed]
    exact fun more hc hr => mark ⟨more, hc, hr⟩

/-- A placeholder in a text: how many characters are left where it begins, up to the end of the note,
and what is inside. -/
structure Occurrence where
  left : Nat
  inside : List Char
  deriving DecidableEq

/-- The placeholders among some pieces, behind which a note has `behind` more characters. -/
def occurrences (behind : Nat) : List Piece → List Occurrence
  | [] => []
  | .text _ :: rest => occurrences behind rest
  | .placeholder expression :: rest =>
    ⟨piecesLength (.placeholder expression :: rest) + behind, expression.toList⟩ ::
      occurrences behind rest

/-- The placeholders of a text, behind which a note has `behind` more characters. -/
def scan (behind : Nat) (text : List Char) : List Occurrence := occurrences behind (pieces text)

theorem findPlaceholder?_eq_some {text before inside after : List Char}
    (h : findPlaceholder? text = some (before, inside, after)) :
    text.length = before.length + inside.length + 3 + after.length := by
  induction text generalizing before with
  | nil => cases h
  | cons c rest ih =>
      rw [findPlaceholder?_cons] at h
      split at h
      · rename_i found
        cases h
        have length := length_of_opened? found
        simp only [List.length_nil]
        omega
      · obtain ⟨⟨earlier, _, _⟩, found, ⟨⟩⟩ := Option.map_eq_some_iff.mp h
        have length := ih found
        simp only [List.length_cons]
        omega

theorem piecesLength_piecesWithin (fuel : Nat) (text : List Char) :
    piecesLength (piecesWithin fuel text) = text.length := by
  induction fuel generalizing text with
  | zero => simp [piecesWithin, piecesLength, Piece.length]
  | succ fuel ih =>
      rw [piecesWithin]
      split
      · simp [piecesLength, Piece.length]
      · rename_i found
        have length := findPlaceholder?_eq_some found
        simp only [piecesLength, Piece.length, String.toList_ofList, ih]
        omega

/-- More fuel than a text has characters finds no more placeholders. -/
theorem piecesWithin_eq {fuel more : Nat} {text : List Char} (enough : text.length ≤ fuel)
    (enough' : text.length ≤ more) : piecesWithin fuel text = piecesWithin more text := by
  induction fuel generalizing more text with
  | zero =>
      obtain rfl : text = [] := List.eq_nil_of_length_eq_zero (Nat.le_zero.mp enough)
      cases more <;> rfl
  | succ fuel ih =>
      cases more with
      | zero =>
          obtain rfl : text = [] := List.eq_nil_of_length_eq_zero (Nat.le_zero.mp enough')
          rfl
      | succ more =>
          rw [piecesWithin, piecesWithin]
          split
          · rfl
          · rename_i after found
            have length := findPlaceholder?_eq_some found
            rw [ih (by omega) (by omega : after.length ≤ more)]

section

variable {text before inside after : List Char} (behind : Nat)

theorem pieces_of_find_none (h : findPlaceholder? text = none) :
    pieces text = [.text (String.ofList text)] := by
  cases text with
  | nil => rfl
  | cons c rest => rw [pieces, List.length_cons, piecesWithin, h]

theorem pieces_of_find_some (h : findPlaceholder? text = some (before, inside, after)) :
    pieces text =
      .text (String.ofList before) :: .placeholder (String.ofList inside) :: pieces after := by
  have length := findPlaceholder?_eq_some h
  cases text with
  | nil => cases h
  | cons c rest =>
      rw [List.length_cons] at length
      -- one placeholder takes three characters at least, so the fuel left is enough
      have same := piecesWithin_eq (by omega : after.length ≤ rest.length) (Nat.le_refl after.length)
      rw [pieces, List.length_cons, piecesWithin, h]
      simp only [same]
      rfl

theorem scan_of_find_none (h : findPlaceholder? text = none) : scan behind text = [] := by
  rw [scan, pieces_of_find_none h]
  rfl

theorem scan_of_find_some (h : findPlaceholder? text = some (before, inside, after)) :
    scan behind text =
      ⟨inside.length + 3 + after.length + behind, inside⟩ :: scan behind after := by
  rw [scan, pieces_of_find_some h]
  simp only [occurrences, piecesLength, Piece.length, String.toList_ofList, pieces,
    piecesLength_piecesWithin]
  rfl

theorem scan_of_opened? (h : opened? text = some (inside, after)) :
    scan behind text = ⟨text.length + behind, inside⟩ :: scan behind after := by
  have length := length_of_opened? h
  cases text with
  | nil => cases h
  | cons c rest =>
      have first : findPlaceholder? (c :: rest) = some ([], inside, after) := by
        rw [findPlaceholder?_cons, h]
      rw [scan_of_find_some behind first, length]
      congr 2
      omega

theorem scan_cons_of_none {c : Char} {rest : List Char} (h : opened? (c :: rest) = none) :
    scan behind (c :: rest) = scan behind rest := by
  cases found : findPlaceholder? rest with
  | none =>
      have none : findPlaceholder? (c :: rest) = none := by rw [findPlaceholder?_cons, h, found]; rfl
      rw [scan_of_find_none behind found, scan_of_find_none behind none]
  | some x =>
      have some : findPlaceholder? (c :: rest) = some (c :: x.1, x.2.1, x.2.2) := by
        rw [findPlaceholder?_cons, h, found]
        rfl
      rw [scan_of_find_some behind found, scan_of_find_some behind some]

end

/-- Characters put in front of the first of some parts. -/
def attach (front : List Char) : List (Nat × List Char) → List (Nat × List Char)
  | [] => [(0, front)]
  | (behind, part) :: parts => (behind, front ++ part) :: parts

/-- The parts of a text between its slashes, each with the count of characters behind it; slashes
inside braces do not separate. -/
def located (depth : Nat) : List Char → List (Nat × List Char)
  | [] => [(0, [])]
  | c :: rest =>
    if c == '/' && depth == 0 then (rest.length + 1, []) :: located 0 rest
    else
      attach [c] (located
        (if c == '\x7b' then depth + 1 else if c == '\x7d' then depth - 1 else depth) rest)

theorem map_attach_singleton (c : Char) (parts : List (Nat × List Char)) :
    (attach [c] parts).map (·.2) =
      match parts.map (·.2) with
      | part :: parts => (c :: part) :: parts
      | [] => [[c]] := by
  cases parts <;> rfl

theorem map_located (depth : Nat) (text : List Char) :
    (located depth text).map (·.2) = splitSlashes depth text := by
  induction text generalizing depth with
  | nil => rfl
  | cons c rest ih =>
      rw [located, splitSlashes]
      split
      · rw [List.map_cons, ih]
      · have first := map_attach_singleton c (located
          (if c == '\x7b' then depth + 1 else if c == '\x7d' then depth - 1 else depth) rest)
        rw [ih] at first
        exact first

theorem attach_attach (front more : List Char) (parts : List (Nat × List Char)) :
    attach front (attach more parts) = attach (front ++ more) parts := by
  cases parts <;> simp [attach]

/-- The first part of a text begins it, and all the rest is behind that part. -/
theorem exists_located_eq (depth : Nat) (text : List Char) : ∃ part more parts,
    located depth text = (more.length, part) :: parts ∧ text = part ++ more := by
  induction text generalizing depth with
  | nil => exact ⟨[], [], [], rfl, rfl⟩
  | cons c rest ih =>
      rw [located]
      split
      · exact ⟨[], c :: rest, _, rfl, rfl⟩
      · obtain ⟨part, more, parts, first, rfl⟩ := ih
          (if c == '\x7b' then depth + 1 else if c == '\x7d' then depth - 1 else depth)
        exact ⟨c :: part, more, parts, by rw [first]; rfl, rfl⟩

theorem exists_located_inside {inside : List Char} (free : '\x7d' ∉ inside) (depth : Nat)
    (rest : List Char) : ∃ deeper,
      located (depth + 1) (inside ++ rest) = attach inside (located (deeper + 1) rest) := by
  induction inside generalizing depth with
  | nil =>
      obtain ⟨part, more, parts, first, -⟩ := exists_located_eq (depth + 1) rest
      exact ⟨depth, by rw [List.nil_append, first]; rfl⟩
  | cons c inside ih =>
      rw [List.mem_cons, not_or] at free
      obtain ⟨other, free⟩ := free
      have below : (c == '/' && depth + 1 == 0) = false := by simp
      have open' : (c == '\x7d') = false := by simpa using Ne.symm other
      rw [List.cons_append, located, below, open']
      simp only [Bool.false_eq_true, if_false]
      split
      · obtain ⟨deeper, found⟩ := ih free (depth + 1)
        exact ⟨deeper, by rw [found, attach_attach]; rfl⟩
      · obtain ⟨deeper, found⟩ := ih free depth
        exact ⟨deeper, by rw [found, attach_attach]; rfl⟩

/-- A placeholder lies within the first part of the text that it begins. -/
theorem exists_located_opened {text inside after : List Char}
    (h : opened? text = some (inside, after)) (depth : Nat) : ∃ deeper,
      located depth text = attach ('%' :: '\x7b' :: (inside ++ ['\x7d'])) (located deeper after) := by
  obtain ⟨rfl, -, free⟩ := opened?_eq_some.mp h
  obtain ⟨deeper, found⟩ := exists_located_inside free depth ('\x7d' :: after)
  have mark : located depth ('%' :: '\x7b' :: (inside ++ '\x7d' :: after)) =
      attach ['%'] (attach ['\x7b'] (located (depth + 1) (inside ++ '\x7d' :: after))) := rfl
  have close : located (deeper + 1) ('\x7d' :: after) = attach ['\x7d'] (located deeper after) := rfl
  refine ⟨deeper, ?_⟩
  rw [mark, found, close, attach_attach, attach_attach, attach_attach]
  rfl

/-- The placeholders of a text are those of its parts. -/
theorem scan_eq_flatMap_located (behind depth : Nat) (text : List Char) :
    scan behind text = (located depth text).flatMap fun x => scan (x.1 + behind) x.2 := by
  induction text using placeholder_induction generalizing depth with
  | nil => rfl
  | plain c rest closed ih =>
      rw [scan_cons_of_none behind closed, located]
      split
      · rw [ih 0, List.flatMap_cons]
        rfl
      · rw [ih (if c == '\x7b' then depth + 1 else if c == '\x7d' then depth - 1 else depth)]
        obtain ⟨part, more, parts, first, rfl⟩ := exists_located_eq
          (if c == '\x7b' then depth + 1 else if c == '\x7d' then depth - 1 else depth) rest
        -- what the first part opened, the whole text would open
        have closed' : opened? (c :: part) = none := by
          refine opened?_eq_none_iff.mpr fun inside after nonempty free same => ?_
          refine opened?_eq_none_iff.mp closed inside (after ++ more) nonempty free ?_
          rw [← List.cons_append, same]
          simp
        rw [first, attach, List.flatMap_cons, List.flatMap_cons, List.singleton_append,
          scan_cons_of_none _ closed']
  | opened text inside after found ih =>
      obtain ⟨deeper, within⟩ := exists_located_opened found depth
      obtain ⟨part, more, parts, first, rfl⟩ := exists_located_eq deeper after
      obtain ⟨rfl, nonempty, free⟩ := opened?_eq_some.mp found
      have found' : opened? ('%' :: '\x7b' :: (inside ++ ['\x7d']) ++ part) = some (inside, part) :=
        opened?_eq_some.mpr ⟨by simp, nonempty, free⟩
      rw [scan_of_opened? behind found, ih deeper, within, first, attach, List.flatMap_cons,
        List.flatMap_cons, scan_of_opened? _ found', List.cons_append]
      congr 2
      simp
      omega

theorem opened?_cons_of_ne {c : Char} (other : c ≠ '%') (rest : List Char) :
    opened? (c :: rest) = none :=
  opened?_eq_none_iff.mpr fun _ _ _ _ same => other (List.cons.inj same).1

theorem scan_blank_append (behind : Nat) {blank : List Char}
    (spaces : ∀ c ∈ blank, Unicode.isSpace c = true) (text : List Char) :
    scan behind (blank ++ text) = scan behind text := by
  induction blank with
  | nil => rfl
  | cons c blank ih =>
      have other : c ≠ '%' := by
        rintro rfl
        exact absurd (spaces '%' List.mem_cons_self) (by decide)
      rw [List.cons_append, scan_cons_of_none behind (opened?_cons_of_ne other _)]
      exact ih fun d member => spaces d (.tail c member)

/-- White space behind a text completes no placeholder. -/
theorem opened?_append_blank {text blank inside after : List Char}
    (spaces : ∀ c ∈ blank, Unicode.isSpace c = true)
    (h : opened? (text ++ blank) = some (inside, after)) : ∃ rest, opened? text = some (inside, rest) := by
  obtain ⟨same, nonempty, free⟩ := opened?_eq_some.mp h
  have front : text ++ blank = ('%' :: '\x7b' :: (inside ++ ['\x7d'])) ++ after := by
    rw [same]
    simp
  rcases List.append_eq_append_iff.mp front with ⟨more, whole, rfl⟩ | ⟨rest, whole, -⟩
  · rcases List.eq_nil_or_concat more with rfl | ⟨start, c, rfl⟩
    · rw [List.append_nil] at whole
      exact ⟨[], opened?_eq_some.mpr ⟨whole.symm, nonempty, free⟩⟩
    · -- the closing brace is no white space, so it stands in the text
      have ends : ('%' :: '\x7b' :: inside) ++ ['\x7d'] = (text ++ start) ++ [c] := by
        rw [List.append_assoc, ← @List.concat_eq_append _ start, ← whole]
        rfl
      obtain ⟨-, ⟨⟩⟩ := List.append_inj' ends rfl
      exact absurd (spaces '\x7d' (by simp)) (by decide)
  · exact ⟨rest, opened?_eq_some.mpr ⟨by rw [whole]; simp, nonempty, free⟩⟩

theorem scan_append_blank (behind : Nat) {blank : List Char}
    (spaces : ∀ c ∈ blank, Unicode.isSpace c = true) (text : List Char) :
    scan behind (text ++ blank) = scan (behind + blank.length) text := by
  induction text using placeholder_induction with
  | nil =>
      have nothing := scan_blank_append behind spaces []
      rwa [List.append_nil] at nothing
  | plain c rest closed ih =>
      have closed' : opened? (c :: (rest ++ blank)) = none := by
        rw [Option.eq_none_iff_forall_ne_some]
        rintro ⟨inside, after⟩ (found : opened? (c :: rest ++ blank) = some (inside, after))
        obtain ⟨rest', found'⟩ := opened?_append_blank spaces found
        rw [closed] at found'
        cases found'
      rw [List.cons_append, scan_cons_of_none _ closed', scan_cons_of_none _ closed, ih]
  | opened text inside after found ih =>
      obtain ⟨rfl, nonempty, free⟩ := opened?_eq_some.mp found
      have found' : opened? ('%' :: '\x7b' :: (inside ++ '\x7d' :: after) ++ blank) =
          some (inside, after ++ blank) := opened?_eq_some.mpr ⟨by simp, nonempty, free⟩
      rw [scan_of_opened? _ found', scan_of_opened? _ found, ih, List.length_append]
      congr 2
      omega

/-- The count of white space characters that trimming takes from the end. -/
def blanksBehind (part : List Char) : Nat :=
  ((part.dropWhile Unicode.isSpace).reverse.takeWhile Unicode.isSpace).length

theorem scan_trimChars (behind : Nat) (part : List Char) :
    scan behind part = scan (behind + blanksBehind part) (Text.trimChars part) := by
  have blank : ∀ text : List Char, ∀ c ∈ text.takeWhile Unicode.isSpace, Unicode.isSpace c = true :=
    fun _ _ member => List.mem_takeWhile_imp member
  have front := @List.takeWhile_append_dropWhile _ Unicode.isSpace part
  generalize body : part.dropWhile Unicode.isSpace = text at front
  have back := congrArg List.reverse (@List.takeWhile_append_dropWhile _ Unicode.isSpace text.reverse)
  rw [List.reverse_append, List.reverse_reverse] at back
  have spaces : ∀ c ∈ (text.reverse.takeWhile Unicode.isSpace).reverse, Unicode.isSpace c = true :=
    fun c member => blank text.reverse c (List.mem_reverse.mp member)
  rw [Text.trimChars, Text.dropEndWhile, blanksBehind, body, ← front,
    scan_blank_append behind (blank part), ← List.length_reverse, ← scan_append_blank _ spaces, back]

/-- The clauses of a note that say something, each with the count of characters behind it. -/
def locatedClauses (note : String) : List (Nat × List Char) :=
  ((located 0 note.toList).map fun x => (x.1 + blanksBehind x.2, Text.trimChars x.2)).filter
    fun x => !x.2.isEmpty

theorem map_locatedClauses (note : String) : (locatedClauses note).map (·.2) = clausesOf note := by
  rw [locatedClauses, clausesOf, ← map_located, List.map_map, List.filter_map, List.filter_map,
    List.map_map]
  rfl

/-- The placeholders of a note are those of its clauses. -/
theorem scan_eq_flatMap_clauses (note : String) :
    scan 0 note.toList = (locatedClauses note).flatMap fun x => scan x.1 x.2 := by
  rw [scan_eq_flatMap_located 0 0, locatedClauses]
  induction located 0 note.toList with
  | nil => rfl
  | cons x rest ih =>
      rw [List.flatMap_cons, ih, List.map_cons, List.filter_cons, scan_trimChars, Nat.add_zero]
      split
      · rw [List.flatMap_cons]
      · rename_i silent
        have empty : Text.trimChars x.2 = [] := by simpa using silent
        rw [empty]
        rfl

end CharacterRules.Note
