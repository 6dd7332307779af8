import CharacterRules.Proofs.Catalog.Token

/-!
The form of attribute lists. The reader accepts exactly the lists of this form, and gives each field
the values of all its occurrences in their order; so values of any text, quoted, are read as they are.
-/

namespace CharacterRules.Entry

/-- One item of a field with its value: nothing at all, a bare text, or a quoted one. -/
inductive IsItem : List Char → String → Prop
  | empty : IsItem [] ""
  | bare {text : List Char} (nonempty : text ≠ []) (plain : ∀ c ∈ text, isBareChar c = true) :
      IsItem text (String.ofList text)
  | quoted {inside value : List Char} (escaped : IsEscaped inside value) :
      IsItem ('"' :: (inside ++ ['"'])) (String.ofList value)

/-- Items with commas between them. -/
inductive IsItems : List Char → List String → Prop
  | last {text : List Char} {value : String} (item : IsItem text value) : IsItems text [value]
  | more {text rest : List Char} {value : String} {values : List String}
      (item : IsItem text value) (more : IsItems rest values) :
      IsItems (text ++ ',' :: rest) (value :: values)

/-- A field with its name and its values. -/
inductive IsField : List Char → String × List String → Prop
  | field {name text : List Char} {values : List String} (named : IsFieldName name)
      (items : IsItems text values) : IsField (name ++ '=' :: text) (String.ofList name, values)

/-- Fields with white space between them, and perhaps in front of them and behind them. -/
inductive IsList : List Char → List (String × List String) → Prop
  | blank {text : List Char} (blank : IsBlank text) : IsList text []
  | last {front text : List Char} {field : String × List String} (blank : IsBlank front)
      (own : IsField text field) : IsList (front ++ text) [field]
  | more {front text rest : List Char} {c : Char} {field : String × List String}
      {fields : List (String × List String)} (blank : IsBlank front) (own : IsField text field)
      (separates : Unicode.isSpace c = true) (more : IsList (c :: rest) fields) :
      IsList (front ++ (text ++ c :: rest)) (field :: fields)

/-- The values of all fields of a name, in order. -/
def valuesOf (name : String) (fields : List (String × List String)) : List String :=
  fields.flatMap fun field => if field.1 = name then field.2 else []

theorem readFrom_nil (offset : Nat) (e : Entry) (expected : Expected) :
    readFrom offset e expected [] = .ok (e.finish expected) := by
  rw [readFrom.eq_def]

theorem readFrom_cons (offset : Nat) (e : Entry) (expected : Expected) (c : Char)
    (rest : List Char) : readFrom offset e expected (c :: rest) =
      match e.step expected (token c rest).1 with
      | .error fault => .error ⟨offset, fault⟩
      | .ok (e', expected') =>
        readFrom (offset + c.utf8Size + Text.byteLength (rest.take (token c rest).2)) e' expected'
          (rest.drop (token c rest).2) :=
  readFrom.eq_def offset e expected (c :: rest)

/-- Whether a text, from any place in a list on, is read without a fault. -/
def Reads (e : Entry) (expected : Expected) (text : List Char) (e' : Entry) : Prop :=
  ∀ offset, readFrom offset e expected text = .ok e'

-- The place only shows in the faults, so a reading without one can take place anywhere.
theorem reads_of_readFrom {offset : Nat} {e e' : Entry} {expected : Expected} {text : List Char}
    (h : readFrom offset e expected text = .ok e') : Reads e expected text e' := by
  intro other
  induction n : text.length using Nat.strongRecOn generalizing text offset other e expected with
  | ind n ih =>
      cases text with
      | nil => rw [readFrom_nil] at h ⊢; exact h
      | cons c rest =>
          rw [readFrom_cons] at h ⊢
          split at h
          · cases h
          · rename_i e₂ expected₂ next
            rw [List.length_cons] at n
            exact ih _ (by rw [List.length_drop]; omega) h _ rfl

theorem reads_nil {e e' : Entry} {expected : Expected} :
    Reads e expected [] e' ↔ e' = e.finish expected := by
  constructor
  · intro h
    exact (Except.ok.inj ((readFrom_nil 0 e expected).symm.trans (h 0))).symm
  · rintro rfl offset
    exact readFrom_nil offset e expected

theorem reads_iff_of_begins {e e' e₂ : Entry} {expected expected' : Expected}
    {text rest : List Char} {t : Token} (h : Begins text t rest)
    (next : e.step expected t = .ok (e₂, expected')) :
    Reads e expected text e' ↔ Reads e₂ expected' rest e' := by
  obtain ⟨c, behind, length, rfl, begins, rfl⟩ := token_of_begins h
  constructor
  · intro h
    have first := h 0
    rw [readFrom_cons, begins, next] at first
    exact reads_of_readFrom first
  · intro h offset
    rw [readFrom_cons, begins, next]
    exact h _

theorem Reads.exists_begins {e e' : Entry} {expected : Expected} {c : Char} {rest : List Char}
    (h : Reads e expected (c :: rest) e') : ∃ t behind e₂ expected',
      Begins (c :: rest) t behind ∧ behind.length ≤ rest.length ∧
      e.step expected t = .ok (e₂, expected') ∧ Reads e₂ expected' behind e' := by
  have first := h 0
  obtain ⟨t, length, begins⟩ : ∃ t length, token c rest = (t, length) := ⟨_, _, rfl⟩
  rw [readFrom_cons, begins] at first
  split at first
  · cases first
  · rename_i e₂ expected' next
    have shorter : (rest.drop length).length ≤ rest.length := by
      rw [List.length_drop]
      exact Nat.sub_le _ _
    refine ⟨t, rest.drop length, e₂, expected', ?_, shorter, next, reads_of_readFrom first⟩
    obtain ⟨fault, rfl⟩ | own := begins_token begins
    · simp only [step, reduceCtorEq] at next
    · exact own

@[simp] theorem values_addField (e : Entry) (added name : String) :
    (e.addField added).values name = e.values name := by
  simp only [values, addField, Std.TreeMap.getD_insertIfNew]
  split
  · rename_i h
    obtain rfl := Std.LawfulEqCmp.compare_eq_iff_eq.mp h.1
    rw [Std.TreeMap.getD_eq_fallback h.2]
  · rfl

theorem values_addValue (e : Entry) (added value name : String) :
    (e.addValue added value).values name =
      e.values name ++ if added = name then [value] else [] := by
  simp only [values, addValue, Std.TreeMap.getD_insert, Std.LawfulEqCmp.compare_eq_iff_eq]
  split
  · rename_i same
    rw [same]
  · rw [List.append_nil]

theorem valuesOf_cons (name field : String) (values : List String)
    (fields : List (String × List String)) : valuesOf name ((field, values) :: fields) =
      (if field = name then values else []) ++ valuesOf name fields := by
  rw [valuesOf, List.flatMap_cons, valuesOf]

/-- Whether an entry holds the values of another and those of some fields behind them. -/
def Extends (e e' : Entry) (fields : List (String × List String)) : Prop :=
  ∀ name, e'.values name = e.values name ++ valuesOf name fields

theorem extends_nil (e : Entry) : e.Extends e [] := fun _ => (List.append_nil _).symm

-- A value that has been read is the first of those of its field.
theorem extends_addValue {e e' : Entry} {field value : String} {values : List String}
    {fields : List (String × List String)} :
    (e.addValue field value).Extends e' ((field, values) :: fields) ↔
      e.Extends e' ((field, value :: values) :: fields) := by
  refine forall_congr' fun name => ?_
  rw [values_addValue, valuesOf_cons, valuesOf_cons, List.append_assoc]
  split
  · rfl
  · rfl

theorem extends_empty {e e' : Entry} {field : String} {fields : List (String × List String)} :
    e.Extends e' ((field, []) :: fields) ↔ e.Extends e' fields := by
  refine forall_congr' fun name => ?_
  rw [valuesOf_cons, ite_self, List.nil_append]

theorem IsList.blank_append {front text : List Char} {fields : List (String × List String)}
    (blank : IsBlank front) (h : IsList text fields) : IsList (front ++ text) fields := by
  have both : ∀ {middle : List Char}, IsBlank middle → IsBlank (front ++ middle) := by
    intro middle more
    exact List.forall_mem_append.mpr ⟨blank, more⟩
  cases h with
  | blank more => exact .blank (both more)
  | last more own =>
      rw [← List.append_assoc]
      exact .last (both more) own
  | more more own separates later =>
      rw [← List.append_assoc]
      exact .more (both more) own separates later

/-- What may stand behind a field: nothing, or the further fields behind white space. -/
def IsTail (text : List Char) (fields : List (String × List String)) : Prop :=
  (text = [] ∧ fields = []) ∨
    ∃ c rest, text = c :: rest ∧ Unicode.isSpace c = true ∧ IsList text fields

/-- What may stand where something is expected, with the fields that it adds; a field that is not
complete counts as one with its further values. -/
def Continues : Expected → List Char → List (String × List String) → Prop
  | .field, text, fields => IsList text fields
  | .value name, text, fields => ∃ items values tail more, text = items ++ tail ∧
      IsItems items values ∧ IsTail tail more ∧ fields = (name, values) :: more
  | .separator name, text, fields =>
      (∃ more, IsTail text more ∧ fields = (name, []) :: more) ∨
        ∃ items values tail more, text = ',' :: (items ++ tail) ∧ IsItems items values ∧
          IsTail tail more ∧ fields = (name, values) :: more

theorem continues_item {name value : String} {text rest : List Char} (item : IsItem text value)
    {fields : List (String × List String)} (h : Continues (.separator name) rest fields) :
    ∃ values more, fields = (name, values) :: more ∧
      Continues (.value name) (text ++ rest) ((name, value :: values) :: more) := by
  obtain ⟨more, tail, rfl⟩ | ⟨items, values, tail, more, rfl, own, later, rfl⟩ := h
  · exact ⟨[], more, rfl, text, [value], rest, more, rfl, .last item, tail, rfl⟩
  · refine ⟨values, more, rfl, text ++ ',' :: items, value :: values, tail, more, ?_, .more item own,
      later, rfl⟩
    rw [List.append_assoc, List.cons_append]

theorem isList_field {name text : List Char} (named : IsFieldName name)
    {fields : List (String × List String)}
    (h : Continues (.value (String.ofList name)) text fields) :
    IsList (name ++ '=' :: text) fields := by
  obtain ⟨items, values, tail, more, rfl, own, later, rfl⟩ := h
  have field : IsField (name ++ '=' :: items) (String.ofList name, values) := .field named own
  obtain ⟨rfl, rfl⟩ | ⟨c, rest, rfl, space, list⟩ := later
  · have whole : IsList ([] ++ (name ++ '=' :: items)) [(String.ofList name, values)] :=
      .last (List.forall_mem_nil _) field
    rwa [List.nil_append, ← List.append_nil items] at whole
  · have whole : IsList ([] ++ ((name ++ '=' :: items) ++ c :: rest))
        ((String.ofList name, values) :: more) :=
      .more (List.forall_mem_nil _) field space list
    rwa [List.nil_append, List.append_assoc, List.cons_append] at whole

/-- The form in front of a token, from the form behind it. -/
theorem exists_continues_of_step {e e₂ e' : Entry} {expected expected₂ : Expected}
    {text rest : List Char} {t : Token} (begins : Begins text t rest)
    (next : e.step expected t = .ok (e₂, expected₂)) {fields : List (String × List String)}
    (h : Continues expected₂ rest fields) (extended : e₂.Extends e' fields) :
    ∃ fields', Continues expected text fields' ∧ e.Extends e' fields' := by
  -- a quoted and a bare value differ only in how they are written
  have item : ∀ {name value : String} {text : List Char}, IsItem text value →
      e₂ = e.addValue name value → expected₂ = .separator name →
      ∃ fields', Continues (.value name) (text ++ rest) fields' ∧ e.Extends e' fields' := by
    rintro name value text own rfl rfl
    obtain ⟨values, more, rfl, continued⟩ := continues_item own h
    exact ⟨_, continued, extends_addValue.mp extended⟩
  cases begins with
  | @space blank _ nonempty spaces stop =>
      have tail : IsList rest fields → IsTail (blank ++ rest) fields := by
        intro list
        obtain ⟨c, blank, rfl⟩ := List.exists_cons_of_ne_nil nonempty
        exact .inr ⟨c, blank ++ rest, rfl, spaces c (.head _), list.blank_append spaces⟩
      cases expected with
      | field =>
          cases next
          exact ⟨fields, h.blank_append spaces, extended⟩
      | value name =>
          cases next
          refine ⟨(name, [""]) :: fields, ?_, extends_addValue.mp (extends_empty.mpr extended)⟩
          exact ⟨[], [""], blank ++ rest, fields, rfl, .last .empty, tail h, rfl⟩
      | separator name =>
          cases next
          exact ⟨(name, []) :: fields, .inl ⟨fields, tail h, rfl⟩, extends_empty.mpr extended⟩
  | comma =>
      cases expected with
      | field => cases next
      | value name =>
          cases next
          obtain ⟨items, values, tail, more, rfl, own, later, rfl⟩ := h
          refine ⟨(name, "" :: values) :: more, ?_, extends_addValue.mp extended⟩
          exact ⟨',' :: items, "" :: values, tail, more, rfl, .more .empty own, later, rfl⟩
      | separator name =>
          cases next
          obtain ⟨items, values, tail, more, rfl, own, later, rfl⟩ := h
          exact ⟨_, .inr ⟨items, values, tail, more, rfl, own, later, rfl⟩, extended⟩
  | quoted escaped =>
      cases expected with
      | field => cases next
      | value name =>
          cases next
          have own := item (.quoted escaped) rfl rfl
          rwa [List.cons_append, List.append_assoc, List.singleton_append] at own
      | separator name => cases next
  | field named =>
      cases expected with
      | field =>
          cases next
          refine ⟨fields, isList_field named h, fun name => ?_⟩
          rw [extended name, values_addField]
      | value name => cases next
      | separator name => cases next
  | bare nonempty plain stop other =>
      cases expected with
      | field => cases next
      | value name =>
          cases next
          exact item (.bare nonempty plain) rfl rfl
      | separator name => cases next

/-- What is read without a fault has the form that is expected. -/
theorem exists_continues_of_reads {e e' : Entry} {expected : Expected} {text : List Char}
    (h : Reads e expected text e') : ∃ fields, Continues expected text fields ∧
      e.Extends e' fields := by
  -- on the length, as a token takes any number of characters
  induction n : text.length using Nat.strongRecOn generalizing text e expected with
  | ind n ih =>
      cases text with
      | nil =>
          obtain rfl := reads_nil.mp h
          cases expected with
          | field => exact ⟨[], .blank (List.forall_mem_nil _), extends_nil e⟩
          | value name =>
              refine ⟨[(name, [""])], ⟨[], [""], [], [], rfl, .last .empty, .inl ⟨rfl, rfl⟩, rfl⟩, ?_⟩
              exact extends_addValue.mp (extends_empty.mpr (extends_nil _))
          | separator name =>
              exact ⟨[(name, [])], .inl ⟨[], .inl ⟨rfl, rfl⟩, rfl⟩, extends_empty.mpr (extends_nil e)⟩
      | cons c rest =>
          obtain ⟨t, behind, e₂, expected₂, begins, shorter, next, later⟩ := h.exists_begins
          rw [List.length_cons] at n
          obtain ⟨fields, own, extended⟩ := ih behind.length (by omega) later rfl
          exact exists_continues_of_step begins next own extended

/-- Whether a text does not continue an item in front of it. -/
def EndsItem (text : List Char) : Prop :=
  text = [] ∨ ∃ c rest, text = c :: rest ∧ (c = ',' ∨ Unicode.isSpace c = true)

theorem EndsItem.stop {text : List Char} (h : EndsItem text) :
    (∀ c ∈ text.head?, isBareChar c = false) ∧ text.head? ≠ some '=' := by
  obtain rfl | ⟨c, rest, rfl, rfl | space⟩ := h
  · exact ⟨nofun, nofun⟩
  · exact ⟨by rintro c ⟨⟩; rfl, by rintro ⟨⟩⟩
  · refine ⟨?_, ?_⟩
    · rintro d ⟨⟩
      simp [isBareChar, space]
    · rintro ⟨⟩
      exact absurd space (by decide)

/-- An item is read as its value. -/
theorem reads_item {name value : String} {text rest : List Char} (item : IsItem text value)
    (ends : EndsItem rest) (e e' : Entry) : Reads e (.value name) (text ++ rest) e' ↔
      Reads (e.addValue name value) (.separator name) rest e' := by
  cases item with
  | empty =>
      -- nothing is read for it: its end is where a value is missing
      rw [List.nil_append]
      obtain rfl | ⟨c, rest, rfl, rfl | space⟩ := ends
      · rw [reads_nil, reads_nil]
        rfl
      · rw [reads_iff_of_begins .comma rfl, reads_iff_of_begins .comma rfl]
      · rw [reads_iff_of_begins (begins_space space rest) rfl,
          reads_iff_of_begins (begins_space space rest) rfl]
  | bare nonempty plain =>
      exact reads_iff_of_begins
        (.bare nonempty plain ends.stop.1 fun equals => absurd equals ends.stop.2) rfl
  | quoted escaped =>
      rw [List.cons_append, List.append_assoc, List.singleton_append]
      exact reads_iff_of_begins (.quoted escaped) rfl

/-- Items are read as the values of their field, if what is behind them is read. -/
theorem exists_reads_items {name : String} {items tail : List Char} {values : List String}
    {more : List (String × List String)} (own : IsItems items values) (ends : EndsItem tail)
    (later : ∀ e : Entry, ∃ e', Reads e (.separator name) tail e' ∧ e.Extends e' more) (e : Entry) :
    ∃ e', Reads e (.value name) (items ++ tail) e' ∧ e.Extends e' ((name, values) :: more) := by
  induction own generalizing e with
  | @last text value item =>
      obtain ⟨e', read, extended⟩ := later (e.addValue name value)
      exact ⟨e', (reads_item item ends e e').mpr read, extends_addValue.mp (extends_empty.mpr extended)⟩
  | @more text rest value values item _ ih =>
      obtain ⟨e', read, extended⟩ := ih (e.addValue name value)
      refine ⟨e', ?_, extends_addValue.mp extended⟩
      rw [List.append_assoc, List.cons_append,
        reads_item item (.inr ⟨',', _, rfl, .inl rfl⟩) e e', reads_iff_of_begins .comma rfl]
      exact read

theorem exists_reads_field {text tail : List Char} {field : String × List String}
    {more : List (String × List String)} (own : IsField text field) (ends : EndsItem tail)
    (later : ∀ (e : Entry) (name : String), ∃ e', Reads e (.separator name) tail e' ∧
      e.Extends e' more) (e : Entry) :
    ∃ e', Reads e .field (text ++ tail) e' ∧ e.Extends e' (field :: more) := by
  cases own with
  | @field name items values named own =>
      obtain ⟨e', read, extended⟩ := exists_reads_items own ends (later · (String.ofList name))
        (e.addField (String.ofList name))
      refine ⟨e', ?_, fun name => by rw [extended name, values_addField]⟩
      rw [List.append_assoc, List.cons_append]
      exact (reads_iff_of_begins (.field named) rfl).mpr read

theorem reads_blank_append {front text : List Char} (blank : IsBlank front) (e e' : Entry) :
    Reads e .field (front ++ text) e' ↔ Reads e .field text e' := by
  induction front with
  | nil => rfl
  | cons c front ih =>
      obtain ⟨space, later⟩ := List.forall_mem_cons.mp blank
      rw [List.cons_append, reads_iff_of_begins (begins_space space _) rfl, ← ih later]
      cases front ++ text with
      | nil => rfl
      | cons d rest =>
          cases space' : Unicode.isSpace d with
          | true => rw [reads_iff_of_begins (begins_space space' rest) rfl,
              List.dropWhile_cons_of_pos space']
          | false => rw [List.dropWhile_cons_of_neg (Bool.eq_false_iff.mp space')]

/-- A list of fields is read. -/
theorem IsList.exists_reads {text : List Char} {fields : List (String × List String)}
    (h : IsList text fields) (e : Entry) : ∃ e', Reads e .field text e' ∧ e.Extends e' fields := by
  induction h generalizing e with
  | @blank text blank =>
      refine ⟨e, ?_, extends_nil e⟩
      rw [← List.append_nil text, reads_blank_append blank, reads_nil]
      rfl
  | @last front text field blank own =>
      obtain ⟨e', read, extended⟩ := exists_reads_field own (.inl rfl)
        (fun e name => ⟨e, reads_nil.mpr rfl, extends_nil e⟩) e
      rw [List.append_nil] at read
      exact ⟨e', (reads_blank_append blank e e').mpr read, extended⟩
  | @more front text rest c field fields blank own separates _ ih =>
      have ends : EndsItem (c :: rest) := .inr ⟨c, rest, rfl, .inr separates⟩
      have later : ∀ (e : Entry) (name : String), ∃ e',
          Reads e (.separator name) (c :: rest) e' ∧ e.Extends e' fields := by
        intro e name
        obtain ⟨e', read, extended⟩ := ih e
        refine ⟨e', ?_, extended⟩
        rw [reads_iff_of_begins (begins_space separates rest) rfl] at read ⊢
        exact read
      obtain ⟨e', read, extended⟩ := exists_reads_field own ends later e
      exact ⟨e', (reads_blank_append blank e e').mpr read, extended⟩

/-- A value in double quotes, with backslashes and double quotes escaped. -/
def quotedText (value : String) : String :=
  "\"" ++ String.ofList (Text.escapeChars (fun c => c == '\\' || c == '"') value.toList) ++ "\""

/-- A field with quoted values; without values there is none. -/
def fieldText (name : String) : List String → String
  | [] => ""
  | value :: values => name ++ "=" ++ Text.join "," ((value :: values).map quotedText)

theorem isEscaped_escapeChars (value : List Char) :
    IsEscaped (Text.escapeChars (fun c => c == '\\' || c == '"') value) value := by
  induction value with
  | nil => exact .nil
  | cons c value ih =>
      rw [Text.escapeChars, List.flatMap_cons]
      split
      · rename_i special
        refine .escape ?_ ih
        rintro rfl
        exact absurd special (by decide)
      · rename_i plain
        simp only [Bool.or_eq_true, beq_iff_eq, not_or] at plain
        exact .plain ⟨plain.2, plain.1⟩ ih

theorem isItem_quotedText (value : String) : IsItem (quotedText value).toList value := by
  have item := IsItem.quoted (isEscaped_escapeChars value.toList)
  rw [String.ofList_toList] at item
  simpa [quotedText] using item

theorem isItems_join (value : String) (values : List String) :
    IsItems (Text.join "," ((value :: values).map quotedText)).toList (value :: values) := by
  induction values generalizing value with
  | nil => exact .last (isItem_quotedText value)
  | cons next values ih =>
      have items := IsItems.more (isItem_quotedText value) (ih next)
      simpa [Text.join] using items

theorem isList_fieldText {name : String} (named : IsFieldName name.toList) (values : List String) :
    ∃ fields, IsList (fieldText name values).toList fields ∧ valuesOf name fields = values := by
  cases values with
  | nil => exact ⟨[], .blank (List.forall_mem_nil _), rfl⟩
  | cons value values =>
      have field := IsField.field named (isItems_join value values)
      rw [String.ofList_toList] at field
      refine ⟨[(name, value :: values)], ?_, by simp [valuesOf]⟩
      have list : IsList ([] ++ _) [(name, value :: values)] := .last (List.forall_mem_nil _) field
      simpa [fieldText] using list

theorem values_empty (name : String) : ({} : Entry).values name = [] :=
  Std.TreeMap.getD_emptyc

theorem ofText_eq_ok_iff {text : String} {e : Entry} :
    ofText text = .ok e ↔ Reads {} .field text.toList e :=
  ⟨reads_of_readFrom, fun h => h 0⟩

theorem exists_ofText_of_isList {text : String} {fields : List (String × List String)}
    (h : IsList text.toList fields) :
    ∃ e, ofText text = .ok e ∧ ∀ name, e.values name = valuesOf name fields := by
  obtain ⟨e, read, extended⟩ := h.exists_reads {}
  refine ⟨e, ofText_eq_ok_iff.mpr read, fun name => ?_⟩
  rw [extended name, values_empty, List.nil_append]

/-- Exactly the lists of fields are read, each field with the values of all its occurrences in their
order; and any values, written in quotes, are read as they are. -/
theorem ofText_iff_isList :
    (∀ text, (∃ e, ofText text = .ok e) ↔ ∃ fields, IsList text.toList fields) ∧
    (∀ text e fields, ofText text = .ok e → IsList text.toList fields →
      ∀ name, e.values name = valuesOf name fields) ∧
    ∀ name values, IsFieldName name.toList →
      ∃ e, ofText (fieldText name values) = .ok e ∧ e.values name = values := by
  refine ⟨fun text => ⟨?_, ?_⟩, fun text e fields read list => ?_, fun name values named => ?_⟩
  · rintro ⟨e, read⟩
    obtain ⟨fields, list, -⟩ := exists_continues_of_reads (ofText_eq_ok_iff.mp read)
    exact ⟨fields, list⟩
  · rintro ⟨fields, list⟩
    obtain ⟨e, read, -⟩ := exists_ofText_of_isList list
    exact ⟨e, read⟩
  · obtain ⟨e', read', values⟩ := exists_ofText_of_isList list
    obtain rfl := Except.ok.inj (read.symm.trans read')
    exact values
  · obtain ⟨fields, list, same⟩ := isList_fieldText named values
    obtain ⟨e, read, own⟩ := exists_ofText_of_isList list
    exact ⟨e, read, (own name).trans same⟩

/-- A field that occurs twice, with an empty value, a bare one and a quoted one. -/
theorem ofText_twoEras :
    (∃ e, ofText " Era=,Modern Era=\"a\\\"b\"" = .ok e ∧
      e.values "Era" = ["", "Modern", "a\"b"]) ∧
    ∃ e, ofText (fieldText "Note" ["+1 \"Parry\", \\", ""]) = .ok e ∧
      e.values "Note" = ["+1 \"Parry\", \\", ""] := by
  have named : IsFieldName "Era".toList := ⟨by decide, List.all_eq_true.mp (by decide)⟩
  have first : IsField "Era=,Modern".toList ("Era", ["", "Modern"]) :=
    .field named (.more .empty (.last (.bare (by decide) (List.all_eq_true.mp (by decide)))))
  have second : IsField "Era=\"a\\\"b\"".toList ("Era", ["a\"b"]) :=
    .field named (.last (.quoted (.plain (by decide) (.escape (by decide) (.plain (by decide) .nil)))))
  have blank : IsBlank [' '] := List.forall_mem_singleton.mpr rfl
  have list : IsList " Era=,Modern Era=\"a\\\"b\"".toList
      [("Era", ["", "Modern"]), ("Era", ["a\"b"])] :=
    .more blank first rfl (.last blank second)
  refine ⟨?_, ofText_iff_isList.2.2 _ _ ⟨by decide, List.all_eq_true.mp (by decide)⟩⟩
  obtain ⟨e, read⟩ := (ofText_iff_isList.1 _).mpr ⟨_, list⟩
  exact ⟨e, read, ofText_iff_isList.2.1 _ e _ read list "Era"⟩

end CharacterRules.Entry
