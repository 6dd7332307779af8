import CharacterRules.Attributes

/-!
Sheets through their lookups. A sheet is known by the values under its keys: two sheets that agree
on every key list the same entries, and an update changes one key only.
-/

namespace CharacterRules.Attributes

theorem getElem?_update (a : Attributes) (key other : String) (value : Option Value) :
    (a.update key value)[other]? = if other = key then value else a[other]? := by
  cases value with
  | some v =>
      simp only [update, Std.TreeMap.getElem?_insert, Std.LawfulEqCmp.compare_eq_iff_eq]
      by_cases h : key = other
      · simp [h]
      · simp [h, Ne.symm h]
  | none =>
      simp only [update, Std.TreeMap.getElem?_erase, Std.LawfulEqCmp.compare_eq_iff_eq]
      by_cases h : key = other
      · simp [h]
      · simp [h, Ne.symm h]

theorem getElem?_update_self (a : Attributes) (key : String) (value : Option Value) :
    (a.update key value)[key]? = value := by
  rw [getElem?_update, if_pos rfl]

theorem getElem?_update_of_ne (a : Attributes) {key other : String} (h : other ≠ key)
    (value : Option Value) : (a.update key value)[other]? = a[other]? := by
  rw [getElem?_update, if_neg h]

theorem nodup_toList (a : Attributes) : a.toList.Nodup := by
  have distinct := a.distinct_keys_toList
  refine distinct.imp ?_
  rintro x y hne rfl
  exact hne Std.ReflCmp.compare_self

/-- Sheets that agree on every key are the same map, so they list the same entries. -/
theorem toList_eq_of_getElem?_eq {a b : Attributes} (h : ∀ key : String, a[key]? = b[key]?) :
    a.toList = b.toList := by
  have perm : a.toList.Perm b.toList := by
    rw [List.perm_ext_iff_of_nodup a.nodup_toList b.nodup_toList]
    rintro ⟨key, value⟩
    rw [Std.TreeMap.mem_toList_iff_getElem?_eq_some, Std.TreeMap.mem_toList_iff_getElem?_eq_some,
      h key]
  exact (Std.TreeMap.Equiv.of_toList_perm perm).toList_eq

/-- What is listed under the keys of a kind depends on the values under these keys alone. -/
theorem toList_filter_eq_of_agree {a b : Attributes} {kind : String → Bool}
    (h : ∀ key, kind key = true → a[key]? = b[key]?) :
    a.toList.filter (fun entry => kind entry.1) = b.toList.filter fun entry => kind entry.1 := by
  have lookups : ∀ key : String, (a.filter fun k _ => kind k)[key]? =
      (b.filter fun k _ => kind k)[key]? := by
    intro key
    rw [Std.TreeMap.getElem?_filter', Std.TreeMap.getElem?_filter']
    cases hk : kind key with
    | true => rw [h key hk]
    | false => simp
  have lists := toList_eq_of_getElem?_eq lookups
  rwa [Std.TreeMap.toList_filter, Std.TreeMap.toList_filter] at lists

theorem mem_violations {a : Attributes} {key : String} :
    key ∈ a.violations ↔ isFactKey key = true ∧ truthy a[key]? = true := by
  simp only [violations, List.mem_map, List.mem_filter, Prod.exists, Bool.and_eq_true,
    Std.TreeMap.mem_toList_iff_getElem?_eq_some]
  constructor
  · rintro ⟨other, value, ⟨found, fact, on⟩, rfl⟩
    exact ⟨fact, by rw [found]; exact on⟩
  · rintro ⟨fact, on⟩
    obtain ⟨value, found, on⟩ := (Option.any_eq_true _ _).mp on
    exact ⟨key, value, ⟨found, fact, on⟩, rfl⟩

end CharacterRules.Attributes
