import CharacterRules.Proofs.Note.Merging
import CharacterRules.Proofs.Number.Product

/-!
Changes by constants. A clause that counts powers or changes an attribute by an amount in digits is one,
and the feature of its trait is the source of all of them and of no other change. So a trait has one rule
for all the constants that it adds to an attribute, with their total, and one for those that it multiplies
it by.
-/

namespace CharacterRules.Note

/-- The attribute that counts what a clause grants. -/
def Counted.key : Counted → String
  | .powers => "powerCount"
  | .powerPoints => "powerPoints"

/-- A change by a constant as a clause words it: what it is of, how it changes it, and the digits of its
amount. -/
structure LiteralChange where
  place : Place
  change : Change
  digits : String

/-- The operator of the rules for a change. -/
def Change.operator : Change → Operator
  | .increase | .decrease => .add
  | .multiply => .multiply

/-- A clause with numbers, from `next` on, in place of its placeholders, if all of them are formulas. -/
def numbered? (next : Nat) (clause : List Char) : Option (List Char) :=
  if hasPlaceholder clause then (outlinePieces next (pieces clause)).2.2 else some clause

/-- The change by a constant that a clause words, if it words one. -/
def literalChange? (next : Nat) (clause : List Char) : Option LiteralChange :=
  match readCount? clause with
  | some (.digits text, counted) => some ⟨.fixed counted.key, .increase, text⟩
  | some (.reference _, _) => none
  | none =>
    match (numbered? next clause).bind readDelta? with
    | some ⟨change, .digits text, phrase⟩ => some ⟨.named phrase, change, text⟩
    | _ => none

/-- The number of the next placeholder behind a clause. -/
def numberBehind (next : Nat) (clause : List Char) : Nat :=
  if (readCount? clause).isNone && hasPlaceholder clause then
    (outlinePieces next (pieces clause)).2.1
  else next

/-- The changes by constants that clauses word. -/
def literalChanges (next : Nat) : List (List Char) → List LiteralChange
  | [] => []
  | clause :: rest =>
    (literalChange? next clause).toList ++ literalChanges (numberBehind next clause) rest

/-- The changes by constants that a note words. -/
def literalsOf (note : String) : List LiteralChange :=
  literalChanges (firstPlaceholder note.toList) (clausesOf note)

namespace LiteralChange

/-- The number that a change contributes: what its digits are read as, or zero if they are not read. -/
def number (l : LiteralChange) : Number :=
  let n := (Number.ofText? l.digits).getD 0
  match l.change with
  | .increase | .multiply => n
  | .decrease => -n

/-- The integer that a change contributes, if its amount is one in the digits from 0 to 9. -/
def integer? (l : LiteralChange) : Option Int :=
  if l.digits ≠ "" ∧ l.digits.toList.all Char.isDigit = true then
    some (Number.signed (l.change = .decrease) (Nat.ofDigitChars 10 l.digits.toList 0))
  else none

/-- The wording of a change whose source is a feature. -/
def wording (feature : String) (l : LiteralChange) : Wording :=
  ⟨l.place, feature, l.change.operator, .literal l.number⟩

end LiteralChange

/-- The changes by constants among the notes of a trait that are of an attribute by an operator. -/
def literalsAt (names : TargetNames) (g : RuleGraph) (target : String) (op : Operator)
    (notes : List String) : List LiteralChange :=
  (notes.flatMap literalsOf).filter fun l =>
    l.place.key? names g == some target && l.change.operator == op

section Clauses

variable {c : Context}

/-- What refers to a value of the note does not come from the feature. -/
def Context.IsApart (c : Context) : Prop := ∀ suffix, c.key ++ suffix ≠ c.feature

theorem isApart_contextOf (name category note : String) : (contextOf name category note).IsApart :=
  noteKey_append_ne category name

theorem Context.IsApart.source_ne (apart : c.IsApart) (mark : Char) :
    (c.amount (.reference mark)).1 ≠ c.feature := by
  unfold Context.amount
  split
  · rename_i digits
    cases digits
  · rw [← String.append_empty (s := c.key)]
    exact apart ""
  · dsimp only
    rw [String.append_assoc]
    exact apart _

theorem filter_of_digits {w : Wording} (source : w.source = c.feature) :
    (some w).filter (·.source == c.feature) = some w := by
  rw [Option.filter_some, source, beq_self_eq_true, if_pos rfl]

theorem filter_of_reference (apart : c.IsApart) {w : Wording} {mark : Char}
    (source : w.source = (c.amount (.reference mark)).1) :
    (some w).filter (·.source == c.feature) = none := by
  rw [Option.filter_some, source, beq_eq_false_iff_ne.mpr (apart.source_ne mark),
    if_neg Bool.false_ne_true]

theorem next_outlineClause (c : Context) (clause : List Char) :
    (outlineClause standardPhrasings c clause).next = numberBehind c.next clause := by
  rw [outlineClause, standardPhrasings, numberBehind]
  cases counts : readCount? clause with
  | some found => simp [Phrasing.outline?, counts]
  | none =>
      cases held : hasPlaceholder clause with
      | true => simp [Phrasing.outline?, counts, held]
      | false => cases delta : readDelta? clause <;> simp [Phrasing.outline?, counts, held, delta]

/-- What a clause words is a count, or the change that it words behind its placeholders. -/
theorem wording_outlineClause (c : Context) (clause : List Char) :
    (outlineClause standardPhrasings c clause).wording =
      match readCount? clause with
      | some (text, counted) => some (c.count text counted)
      | none => ((numbered? c.next clause).bind readDelta?).map c.change := by
  rw [outlineClause, standardPhrasings, numbered?]
  cases counts : readCount? clause with
  | some found => simp [Phrasing.outline?, counts]
  | none =>
      cases held : hasPlaceholder clause with
      | true =>
          simp only [Phrasing.outline?, counts, held, List.findSome?_cons, Option.map_none, if_true,
            Option.getD_some]
          rfl
      | false => cases delta : readDelta? clause <;> simp [Phrasing.outline?, counts, held, delta]

theorem filter_outlineClause (apart : c.IsApart) (clause : List Char) :
    (outlineClause standardPhrasings c clause).wording.filter (·.source == c.feature) =
      (literalChange? c.next clause).map (·.wording c.feature) := by
  rw [wording_outlineClause, literalChange?]
  cases readCount? clause with
  | some found =>
      obtain ⟨text, counted⟩ := found
      cases text with
      | digits text =>
          refine Eq.trans (filter_of_digits rfl) ?_
          cases counted <;> rfl
      | reference mark => exact filter_of_reference apart rfl
  | none =>
      dsimp only
      cases (numbered? c.next clause).bind readDelta? with
      | none => rfl
      | some d =>
          obtain ⟨change, amount, phrase⟩ := d
          cases amount with
          | digits text =>
              refine Eq.trans (filter_of_digits rfl) ?_
              cases change <;> rfl
          | reference mark => exact filter_of_reference apart rfl

theorem filter_outlines (apart : c.IsApart) (clauses : List (List Char)) :
    ((outlines standardPhrasings c clauses).flatMap (·.wording.toList)).filter
        (·.source == c.feature) =
      (literalChanges c.next clauses).map (·.wording c.feature) := by
  induction clauses generalizing c with
  | nil => rfl
  | cons clause rest ih =>
      have first : (outlineClause standardPhrasings c clause).wording.toList.filter
          (·.source == c.feature) =
            (literalChange? c.next clause).toList.map (·.wording c.feature) := by
        rw [← Option.toList_filter, filter_outlineClause apart, Option.toList_map]
      have later := ih (c := { c with next := (outlineClause standardPhrasings c clause).next }) apart
      dsimp only at later
      rw [next_outlineClause] at later
      rw [outlines, List.flatMap_cons, List.filter_append, first, next_outlineClause, later,
        literalChanges, List.map_append]

end Clauses

/-- The changes of a trait whose source is its feature are those by constants. -/
theorem filter_wordings (name : String) (notes : List (String × String)) :
    (notes.flatMap (wordingsOf standardPhrasings name)).filter (·.source == "features." ++ name) =
      (notes.flatMap fun note => literalsOf note.2).map (·.wording ("features." ++ name)) := by
  induction notes with
  | nil => rfl
  | cons note rest ih =>
      have first := filter_outlines (isApart_contextOf name note.1 note.2) (clausesOf note.2)
      rw [List.flatMap_cons, List.filter_append, ih, List.flatMap_cons, List.map_append]
      exact congrArg (· ++ _) first

theorem source_pending? {w : Wording} {names : TargetNames} {g : RuleGraph} {d : PendingDelta}
    (h : w.pending? names g = some d) : d.source = w.source := by
  obtain ⟨target, -, rfl⟩ := Option.map_eq_some_iff.mp h
  rfl

/-- Only wordings with a source stand for changes from it. -/
theorem filter_filterMap {pending? : Wording → Option PendingDelta}
    (sources : ∀ {w d}, pending? w = some d → d.source = w.source) (wordings : List Wording)
    (target source : String) (op : Operator) :
    (wordings.filterMap pending?).filter (·.isAt target source op) =
      ((wordings.filter (·.source == source)).filterMap pending?).filter
        (·.isAt target source op) := by
  induction wordings with
  | nil => rfl
  | cons w rest ih =>
      cases found : pending? w with
      | none =>
          rw [List.filterMap_cons_none found, ih, List.filter_cons]
          split
          · rw [List.filterMap_cons_none found]
          · rfl
      | some d =>
          rw [List.filterMap_cons_some found, List.filter_cons, ih, List.filter_cons]
          by_cases own : (w.source == source) = true
          · rw [if_pos own, List.filterMap_cons_some found, List.filter_cons]
          · have elsewhere : ¬d.isAt target source op = true := by
              simp only [PendingDelta.isAt, sources found, Bool.and_eq_true]
              exact fun here => own here.1.2
            rw [if_neg own, if_neg elsewhere]

theorem filter_literals (names : TargetNames) (g : RuleGraph) (feature target : String)
    (op : Operator) (literals : List LiteralChange) :
    ((literals.map (·.wording feature)).filterMap (·.pending? names g)).filter
        (·.isAt target feature op) =
      (literals.filter fun l =>
        l.place.key? names g == some target && l.change.operator == op).map fun l =>
          constantChange target feature op l.number := by
  induction literals with
  | nil => rfl
  | cons l rest ih =>
      have own : (l.wording feature).pending? names g =
          (l.place.key? names g).map (constantChange · feature l.change.operator l.number) := rfl
      rw [List.map_cons, List.filter_cons, List.filterMap_cons, own]
      cases l.place.key? names g with
      | none => exact ih
      | some key =>
          dsimp only [Option.map_some]
          rw [List.filter_cons, ih]
          have here : (constantChange key feature l.change.operator l.number).isAt target feature op =
              (some key == some target && l.change.operator == op) := by
            simp [PendingDelta.isAt, constantChange]
          rw [here]
          split
          · rename_i same
            simp only [Bool.and_eq_true, beq_iff_eq, Option.some.injEq] at same
            rw [same.1, same.2, List.map_cons]
          · rfl

/-- The changes of a place from the feature of a trait are those by constants. -/
theorem filter_changes (names : TargetNames) (g : RuleGraph) (name : String)
    (notes : List (String × String)) (target : String) (op : Operator) :
    ((notes.flatMap (wordingsOf standardPhrasings name)).filterMap (·.pending? names g)).filter
        (·.isAt target ("features." ++ name) op) =
      ((literalsAt names g target op (notes.map Prod.snd)).map (·.number)).map
        (constantChange target ("features." ++ name) op) := by
  rw [filter_filterMap source_pending?, filter_wordings, filter_literals, literalsAt,
    List.flatMap_map, List.map_map]
  rfl

theorem isAt_of_mem_rulesOf {name : String} {note : String × String} {r : Rule}
    (h : r ∈ rulesOf standardPhrasings name note) (target source : String) {op : Operator}
    (merged : op = .add ∨ op = .multiply) : r.isAt target source op = false := by
  have kept : r.op = .gate ∨ r.op = .set := by
    cases List.mem_cons.mp h with
    | inl own =>
        rw [own, shownRule]
        dsimp only
        split
        · exact .inl rfl
        · exact .inr rfl
    | inr part =>
        obtain ⟨x, -, member⟩ := List.mem_flatMap.mp part
        cases List.mem_cons.mp member with
        | inl own => exact .inl (own ▸ rfl)
        | inr later =>
            obtain ⟨s, -, rfl⟩ := List.mem_map.mp later
            exact .inr rfl
  have other : (r.op == op) = false := by
    obtain rfl | rfl := merged <;> obtain same | same := kept <;> rw [same] <;> rfl
  rw [Rule.isAt, other, Bool.and_false]

/-- The total of integers. -/
def totalInteger (op : Operator) (values : List Int) : Int :=
  match op with
  | .multiply => values.prod
  | _ => values.sum

def mergeIntegers : Operator → Int → Int → Int
  | .multiply => (· * ·)
  | _ => (· + ·)

theorem foldl_mergeIntegers (op : Operator) (v : Int) (rest : List Int) :
    rest.foldl (mergeIntegers op) v = totalInteger op (v :: rest) := by
  have sum : (v :: rest).sum = rest.foldl (· + ·) v := by
    rw [List.sum_eq_foldl, List.foldl_cons, zero_add]
  have product : (v :: rest).prod = rest.foldl (· * ·) v := by
    rw [List.prod_eq_foldl, List.foldl_cons, one_mul]
  cases op with
  | multiply => exact product.symm
  | _ => exact sum.symm

/-- Constants that are integers are merged exactly if the result is a number. -/
theorem toInt?_mergeNumbers (op : Operator) {x y : Number} {a b : Int} (hx : x.toInt? = some a)
    (hy : y.toInt? = some b) (exact : Number.IsExact (mergeIntegers op a b)) :
    (mergeNumbers op x y).toInt? = some (mergeIntegers op a b) := by
  cases op with
  | multiply => exact Number.toInt?_mul hx hy exact
  | _ => exact (Number.toInt?_add hx hy exact).1

/-- Amounts that are integers, and whose totals from the first on are all numbers without rounding. -/
structure MergesExactly (op : Operator) (changes : List LiteralChange) (values : List Int) : Prop where
  integral : changes.map (·.integer?) = values.map some
  amounts : ∀ v ∈ values, Number.IsExact v
  totals : ∀ before, before <+: values → Number.IsExact (totalInteger op before)

/-- Below `2 ^ 53` nothing is rounded. -/
theorem MergesExactly.of_lt {op : Operator} {changes : List LiteralChange} {values : List Int}
    (integral : changes.map (·.integer?) = values.map some)
    (amounts : ∀ v ∈ values, v.natAbs < 2 ^ 53)
    (totals : ∀ before ∈ values.inits, (totalInteger op before).natAbs < 2 ^ 53) :
    MergesExactly op changes values where
  integral := integral
  amounts v member := Number.isExact_of_lt (amounts v member)
  totals before part := Number.isExact_of_lt (totals before ((List.mem_inits before values).mpr part))

theorem LiteralChange.toInt?_number {l : LiteralChange} {v : Int} (integer : l.integer? = some v)
    (exact : Number.IsExact v) : l.number.toInt? = some v := by
  obtain ⟨place, change, digits⟩ := l
  rw [integer?, Option.ite_none_right_eq_some] at integer
  obtain ⟨⟨nonempty, digital⟩, same⟩ := integer
  obtain rfl := Option.some.inj same
  have numeral : Number.IsNumeral digits.toList [] := by
    refine ⟨fun none => nonempty (String.toList_inj.mp none), fun c member => ?_⟩
    rw [List.append_nil] at member
    exact List.all_eq_true.mp digital c member
  have unsigned : Number.IsExact (Nat.ofDigitChars 10 digits.toList 0) := by
    cases change with
    | increase => exact exact
    | multiply => exact exact
    | decrease =>
        obtain ⟨x, value⟩ := exact
        refine ⟨-x, (Number.toInt?_neg value).trans (congrArg some ?_)⟩
        exact Int.neg_neg _
  obtain ⟨x, read, value⟩ := Number.exists_ofText?_of_digits numeral unsigned
  rw [String.ofList_toList] at read
  rw [number, read, Option.getD_some]
  cases change with
  | increase => exact value
  | multiply => exact value
  | decrease => exact Number.toInt?_neg value

/-- Integers that are merged without rounding leave their sum or their product. -/
theorem MergesExactly.toInt?_total {op : Operator} {changes : List LiteralChange} {values : List Int}
    (h : MergesExactly op changes values) {n : Number}
    (total : total? op (changes.map (·.number)) = some n) :
    n.toInt? = some (totalInteger op values) := by
  have integers : List.Forall₂ (fun x a => x.toInt? = some a) (changes.map (·.number)) values := by
    have same := h.integral
    rw [← List.forall₂_eq_eq_eq, List.forall₂_map_left_iff, List.forall₂_map_right_iff] at same
    rw [List.forall₂_map_left_iff]
    have amounts := h.amounts
    clear total h
    induction same with
    | nil => exact .nil
    | cons first _ ih =>
        obtain ⟨own, later⟩ := List.forall_mem_cons.mp amounts
        exact .cons (LiteralChange.toInt?_number first own) (ih later)
  have totals := h.totals
  generalize changes.map (·.number) = numbers at integers total
  cases integers with
  | nil => cases total
  | @cons x v rest values first others =>
      rw [← Option.some.inj total, ← foldl_mergeIntegers]
      refine Number.toInt?_foldl (toInt?_mergeNumbers op) others first fun before part => ?_
      rw [foldl_mergeIntegers]
      exact totals (v :: before) ((List.prefix_cons_inj v).mpr part)

/-- A trait whose feature is no source yet gets one rule for the constants that it adds to an attribute,
with their total, and one for those that it multiplies it by, or none where there are no constants. The
total of integers is their sum or product as long as none of its steps is rounded. -/
theorem rulesAt_compileFeature {g : RuleGraph} (built : g.Built) (names : TargetNames) {name : String}
    (fresh : g.rulesFrom ("features." ++ name) = []) {sections notes : List String}
    (paired : sections.length = notes.length) :
    ∃ g', compileFeature standardPhrasings g names name sections notes = .ok g' ∧
      ∀ target op, op = .add ∨ op = .multiply →
        g'.rulesAt target ("features." ++ name) op =
          (total? op ((literalsAt names g target op notes).map (·.number))).toList.map
            (constantRule target ("features." ++ name) op) ∧
        ∀ values, MergesExactly op (literalsAt names g target op notes) values → values ≠ [] →
          ∃ n, g'.rulesAt target ("features." ++ name) op =
            [constantRule target ("features." ++ name) op n] ∧
            n.toInt? = some (totalInteger op values) := by
  refine ⟨compileNotes standardPhrasings g names name (sections.zip notes), ?_, ?_⟩
  · rw [compileFeature, if_neg (not_not.mpr paired)]
  intro target op merged
  have texts : (sections.zip notes).map Prod.snd = notes := List.map_snd_zip paired.ge
  have absent : g.rulesAt target ("features." ++ name) op = [] := by
    refine List.filter_eq_nil_iff.mpr fun r member here => ?_
    rw [Rule.isAt, Bool.and_eq_true, Bool.and_eq_true] at here
    exact absurd here.1.2 (List.filter_eq_nil_iff.mp fresh r member)
  have rules : (compileNotes standardPhrasings g names name (sections.zip notes)).rulesAt target
      ("features." ++ name) op =
        (total? op ((literalsAt names g target op notes).map (·.number))).toList.map
          (constantRule target ("features." ++ name) op) := by
    have constants := filter_changes names g name (sections.zip notes) target op
    rw [texts] at constants
    rw [compileNotes_eq, RuleGraph.rulesAt, rules_keepNotes]
    refine rulesAt_defineAll_of_constants built.consistent absent (fun r member => ?_) constants
    obtain ⟨note, -, own⟩ := List.mem_flatMap.mp member
    exact isAt_of_mem_rulesOf own target _ merged
  refine ⟨rules, fun values exactly nonempty => ?_⟩
  have merges : literalsAt names g target op notes ≠ [] := by
    intro none
    have integral := exactly.integral
    rw [none] at integral
    exact nonempty (List.map_eq_nil_iff.mp integral.symm)
  obtain ⟨l, rest, found⟩ := List.exists_cons_of_ne_nil merges
  rw [found, List.map_cons] at rules
  exact ⟨_, rules, exactly.toInt?_total (by rw [found]; rfl)⟩

def fencingNames : TargetNames :=
  ((({} : TargetNames).addStat "parry").addStat "pace").addSkill "Fighting"

/-- Notes with three constants for one attribute, two for another, a count and a reference. -/
def fencerNotes : List String :=
  ["+1 Parry/-3 Parry (unarmed)/x2 Pace", "+%V Fighting/+4 parry./x3 Pace/2 new powers"]

theorem rulesAt_compileFeature_fencer : RuleGraph.Built {} ∧
    RuleGraph.rulesFrom {} "features.Fencer" = [] ∧ ["combat", "skill"].length = fencerNotes.length ∧
    ∃ g, compileFeature standardPhrasings {} fencingNames "Fencer" ["combat", "skill"] fencerNotes =
        .ok g ∧
      MergesExactly .add (literalsAt fencingNames {} "parry" .add fencerNotes) [1, -3, 4] ∧
      (∃ n, g.rulesAt "parry" "features.Fencer" .add =
        [constantRule "parry" "features.Fencer" .add n] ∧ n.toInt? = some 2) ∧
      (∃ n, g.rulesAt "pace" "features.Fencer" .multiply =
        [constantRule "pace" "features.Fencer" .multiply n] ∧ n.toInt? = some 6) ∧
      g.rulesAt "skillModifier.Fighting" "features.Fencer" .add = [] := by
  have fresh : RuleGraph.rulesFrom {} ("features." ++ "Fencer") = [] := rfl
  have paired : ["combat", "skill"].length = fencerNotes.length := rfl
  obtain ⟨g, compiled, rules⟩ :=
    rulesAt_compileFeature RuleGraph.built_empty fencingNames fresh paired
  have sums : MergesExactly .add (literalsAt fencingNames {} "parry" .add fencerNotes) [1, -3, 4] :=
    .of_lt (by decide +kernel) (by decide) (by decide)
  have products : MergesExactly .multiply (literalsAt fencingNames {} "pace" .multiply fencerNotes)
      [2, 3] := .of_lt (by decide +kernel) (by decide) (by decide)
  have references : literalsAt fencingNames {} "skillModifier.Fighting" .add fencerNotes = [] := by
    refine List.length_eq_zero_iff.mp ?_
    decide +kernel
  refine ⟨RuleGraph.built_empty, fresh, paired, g, compiled, sums, ?_, ?_, ?_⟩
  · exact (rules "parry" .add (.inl rfl)).2 _ sums (by decide)
  · exact (rules "pace" .multiply (.inr rfl)).2 _ products (by decide)
  · have none := (rules "skillModifier.Fighting" .add (.inl rfl)).1
    rw [references] at none
    exact none

/-- An increase by three whose amount is in the digits of another script. -/
def arabicNote : String := "+٣ Parry"

/-- Such an amount is one for the pattern of changes, but the rule adds zero. -/
theorem rulesAt_compileFeature_arabicNote :
    (literalsAt fencingNames {} "parry" .add [arabicNote]).map (·.digits) = ["٣"] ∧
    ∃ g, compileFeature standardPhrasings {} fencingNames "Foo" ["combat"] [arabicNote] = .ok g ∧
      (g.rulesAt "parry" "features.Foo" .add == [constantRule "parry" "features.Foo" .add 0]) = true ∧
      g.rulesAt "parry" "features.Foo" .add ≠ [constantRule "parry" "features.Foo" .add 3] := by
  refine ⟨by decide +kernel, _, rfl, by decide +kernel, fun same => ?_⟩
  have other : ((compileNotes standardPhrasings {} fencingNames "Foo" [("combat", arabicNote)]).rulesAt
      "parry" "features.Foo" .add == [constantRule "parry" "features.Foo" .add 3]) = false := by
    decide +kernel
  have equal : ([constantRule "parry" "features.Foo" .add 3] ==
      [constantRule "parry" "features.Foo" .add 3]) = true := by decide
  exact Bool.false_ne_true (other.symm.trans (congrArg (· == _) same |>.trans equal))

end CharacterRules.Note
