import CharacterRules.Proofs.Attributes.Lookup
import CharacterRules.Proofs.Text.ByteOrder

/-!
Keys with a common beginning. In the order of keys they stand side by side, from the first key that is
not below the beginning on, so a scan that ends at the first other key finds all of them: it lists what a
search through all keys lists.
-/

namespace CharacterRules

namespace Text

theorem isSome_dropStart?_iff {start text : List Char} :
    (dropStart? start text).isSome = true ↔ start <+: text := by
  induction start generalizing text with
  | nil => exact iff_of_true rfl List.nil_prefix
  | cons a start ih =>
      cases text with
      | nil => simp [dropStart?]
      | cons b text =>
          rw [dropStart?, List.cons_prefix_cons]
          split
          · rename_i same
            rw [ih, and_iff_right same]
          · rename_i differs
            exact iff_of_false Bool.false_ne_true fun both => differs both.1

theorem startsWith_iff {text start : String} :
    startsWith text start = true ↔ start.toList <+: text.toList := isSome_dropStart?_iff

/-- What lies between a text and a continuation of it is a continuation, too. -/
theorem prefix_of_between {start a b : List Char} (above : ¬ a < start) (below : a < b)
    (begins : start <+: b) : start <+: a := by
  induction start generalizing a b with
  | nil => exact List.nil_prefix
  | cons c start ih =>
      obtain ⟨rest, rfl⟩ := begins
      cases a with
      | nil => exact absurd (List.nil_lt_cons c start) above
      | cons d a =>
          rw [List.cons_append, List.cons_lt_cons_iff] at below
          rw [List.cons_lt_cons_iff, not_or, not_and] at above
          obtain ⟨rfl, later⟩ := below.resolve_left above.1
          exact List.cons_prefix_cons.mpr ⟨rfl, ih (above.2 rfl) later (List.prefix_append start rest)⟩

theorem startsWith_of_between {start a b : String} (above : ¬ a < start) (below : a < b)
    (begins : startsWith b start = true) : startsWith a start = true := by
  rw [String.lt_iff_toList_lt] at above below
  rw [startsWith_iff] at begins ⊢
  exact prefix_of_between above below begins

theorem not_lt_of_startsWith {start a : String} (begins : startsWith a start = true) :
    ¬ a < start := by
  obtain ⟨rest, whole⟩ := startsWith_iff.mp begins
  rw [String.lt_iff_toList_lt, ← whole]
  exact List.not_lt.mpr List.le_append_left

end Text

section

variable {α : Type} {p : α → Bool} {items : List α}

/-- Where a property does not come back once it is lost, it holds only of what precedes the first loss. -/
theorem takeWhile_eq_filter_of_pairwise
    (early : items.Pairwise fun x y => p y = true → p x = true) :
    items.takeWhile p = items.filter p := by
  induction items with
  | nil => rfl
  | cons y rest ih =>
      obtain ⟨first, later⟩ := List.pairwise_cons.mp early
      by_cases holds : p y = true
      · rw [List.takeWhile_cons_of_pos holds, List.filter_cons_of_pos holds, ih later]
      · have lost : ∀ x ∈ rest, ¬ p x = true := fun x behind own => holds (first x behind own)
        rw [List.takeWhile_cons_of_neg holds, List.filter_cons_of_neg holds,
          List.filter_eq_nil_iff.mpr lost]

theorem dropWhile_eq_filter_of_pairwise
    (early : items.Pairwise fun x y => p y = true → p x = true) :
    items.dropWhile p = items.filter (!p ·) := by
  induction items with
  | nil => rfl
  | cons y rest ih =>
      obtain ⟨first, later⟩ := List.pairwise_cons.mp early
      by_cases holds : p y = true
      · rw [List.dropWhile_cons_of_pos holds, ih later, List.filter_cons_of_neg (by simp [holds])]
      · rw [List.dropWhile_cons_of_neg holds, eq_comm, List.filter_eq_self]
        intro x member
        rw [Bool.not_eq_true', Bool.eq_false_iff]
        rcases List.mem_cons.mp member with rfl | behind
        · exact holds
        · exact fun own => holds (first x behind own)

end

namespace Attributes

theorem pairwise_keys (a : Attributes) : a.keys.Pairwise (· < ·) :=
  a.ordered_keys.imp compareOfLessAndEq_eq_lt.mp

/-- The scan from a beginning on ends before no key that begins so. -/
theorem keysFrom_eq_filter (a : Attributes) (start : String) :
    a.keysFrom start = a.keys.filter (Text.startsWith · start) := by
  have below : a.keys.Pairwise fun x y => decide (y < start) = true → decide (x < start) = true := by
    refine a.pairwise_keys.imp fun less below => ?_
    exact decide_eq_true (less.trans (of_decide_eq_true below))
  have begins : (a.keys.filter fun key => !decide (key < start)).Pairwise fun x y =>
      Text.startsWith y start = true → Text.startsWith x start = true := by
    refine (a.pairwise_keys.filter _).imp_of_mem @fun x _ member _ less begins => ?_
    have above : ¬ x < start := by simpa using (List.mem_filter.mp member).2
    exact Text.startsWith_of_between above less begins
  rw [keysFrom, dropWhile_eq_filter_of_pairwise below, takeWhile_eq_filter_of_pairwise begins,
    List.filter_filter]
  refine List.filter_congr fun key _ => ?_
  cases holds : Text.startsWith key start with
  | false => rfl
  | true => rw [decide_eq_false (Text.not_lt_of_startsWith holds)]; rfl

/-- The scan from a beginning on finds exactly the keys that begin so. -/
theorem mem_keysFrom {a : Attributes} {start key : String} :
    key ∈ a.keysFrom start ↔ key ∈ a ∧ Text.startsWith key start = true := by
  rw [keysFrom_eq_filter, List.mem_filter, Std.TreeMap.mem_keys]

/-- The scan from a beginning on, against all keys of the sheet: it lists what is left of them when each is
tried, which is every key whose bytes begin with those of the beginning, once, in the order of the bytes. -/
theorem keysFrom_lists_in_order (a : Attributes) (start : String) :
    a.keysFrom start = a.keys.filter (Text.startsWith · start) ∧
    (∀ key, key ∈ a.keysFrom start ↔ key ∈ a ∧ Text.bytes start <+: Text.bytes key) ∧
    (a.keysFrom start).Nodup ∧
    (a.keysFrom start).Pairwise (fun x y => Text.bytes x < Text.bytes y) := by
  have ascending : (a.keysFrom start).Pairwise (· < ·) := by
    rw [keysFrom_eq_filter]
    exact a.pairwise_keys.filter _
  refine ⟨a.keysFrom_eq_filter start, ?_, ascending.imp ne_of_lt, ascending.imp Text.bytes_lt_iff.mpr⟩
  intro key
  rw [mem_keysFrom, Text.startsWith_iff, Text.bytes_isPrefix_iff]

example : keysFrom {("edges", .number 1), ("edges.", .number 1), ("edges.Quick", .number 1),
    ("edges.Ätherisch", .number 1), ("edges.Alertness", .number 1), ("edges/", .number 1)} "edges." =
      ["edges.", "edges.Alertness", "edges.Quick", "edges.Ätherisch"] := by
  decide

end Attributes
end CharacterRules
