import Mathlib.Data.List.Forall2

/-!
Computations that succeed. One that is put together from others succeeds if each of them does, and one
over a list relates the elements of the list to its results, place by place.
-/

namespace CharacterRules

theorem exists_of_isOk {ε α : Type} {x : Except ε α} (h : x.isOk = true) : ∃ a, x = .ok a := by
  cases x with
  | error e => exact Bool.noConfusion h
  | ok a => exact ⟨a, rfl⟩

theorem exists_of_bind_eq_ok {ε α β : Type} {x : Except ε α} {f : α → Except ε β} {b : β}
    (h : x >>= f = .ok b) : ∃ a, x = .ok a ∧ f a = .ok b := by
  cases x with
  | error e => cases h
  | ok a => exact ⟨a, rfl, h⟩

theorem toOption_eq_some_iff {ε α : Type} {x : Except ε α} {a : α} :
    x.toOption = some a ↔ x = .ok a := by
  cases x with
  | error e => exact ⟨nofun, nofun⟩
  | ok b => exact ⟨fun h => congrArg Except.ok (Option.some.inj h), fun h => by rw [h]; rfl⟩

theorem map_eq_ok_iff {ε α β : Type} {x : Except ε α} {f : α → β} {b : β} :
    x.map f = .ok b ↔ ∃ a, x = .ok a ∧ f a = b := by
  cases x with
  | error e => exact ⟨nofun, nofun⟩
  | ok a => simp [Except.map]

theorem mapError_eq_ok_iff {ε ε' α : Type} {x : Except ε α} {f : ε → ε'} {a : α} :
    x.mapError f = .ok a ↔ x = .ok a := by
  cases x with
  | error e => exact ⟨nofun, nofun⟩
  | ok a => simp [Except.mapError]

theorem mapM_eq_ok_iff {ε α β : Type} {f : α → Except ε β} {l : List α} {bs : List β} :
    l.mapM f = .ok bs ↔ List.Forall₂ (fun a b => f a = .ok b) l bs := by
  induction l generalizing bs with
  | nil =>
      rw [List.forall₂_nil_left_iff, List.mapM_nil]
      exact ⟨fun h => (Except.ok.inj h).symm, fun h => congrArg Except.ok h.symm⟩
  | cons a l ih =>
      rw [List.mapM_cons, List.forall₂_cons_left_iff]
      constructor
      · intro h
        obtain ⟨b, read, h⟩ := exists_of_bind_eq_ok h
        obtain ⟨others, reads, same⟩ := exists_of_bind_eq_ok h
        exact ⟨b, others, read, ih.mp reads, (Except.ok.inj same).symm⟩
      · rintro ⟨b, others, read, reads, rfl⟩
        rw [read, ih.mpr reads]
        rfl

theorem mapM_append_eq_ok_iff {ε α β : Type} {f : α → Except ε β} {l m : List α} {bs : List β} :
    (l ++ m).mapM f = .ok bs ↔
      ∃ cs ds, l.mapM f = .ok cs ∧ m.mapM f = .ok ds ∧ bs = cs ++ ds := by
  rw [List.mapM_append]
  constructor
  · intro h
    obtain ⟨cs, first, h⟩ := exists_of_bind_eq_ok h
    obtain ⟨ds, second, same⟩ := exists_of_bind_eq_ok h
    exact ⟨cs, ds, first, second, (Except.ok.inj same).symm⟩
  · rintro ⟨cs, ds, first, second, rfl⟩
    rw [first, second]
    rfl

theorem exists_of_mem_forall₂ {α β : Type} {R : α → β → Prop} {l : List α} {m : List β}
    (h : List.Forall₂ R l m) {b : β} (member : b ∈ m) : ∃ a ∈ l, R a b := by
  induction h with
  | nil => cases member
  | @cons a _ l _ first _ ih =>
      obtain rfl | later := List.mem_cons.mp member
      · exact ⟨a, List.mem_cons_self, first⟩
      · obtain ⟨a', member', related⟩ := ih later
        exact ⟨a', List.mem_cons_of_mem a member', related⟩

/-- Lists are equal if they have equal elements in the same places. -/
theorem beq_iff_forall₂ {α : Type} [BEq α] {l m : List α} :
    (l == m) = true ↔ List.Forall₂ (fun a b => (a == b) = true) l m := by
  induction l generalizing m with
  | nil =>
      cases m with
      | nil => exact ⟨fun _ => .nil, fun _ => rfl⟩
      | cons b m => exact ⟨nofun, nofun⟩
  | cons a l ih =>
      cases m with
      | nil => exact ⟨nofun, nofun⟩
      | cons b m => rw [List.cons_beq_cons, Bool.and_eq_true, List.forall₂_cons, ih]

theorem exists_mapM_beq_iff {ε α β : Type} [BEq β] {f : α → Except ε β} {P : β → Prop}
    {l : List α} {bs : List β}
    (h : List.Forall₂ (fun b a => (∃ d, f a = .ok d ∧ (d == b) = true) ↔ P b) bs l) :
    (∃ ds, l.mapM f = .ok ds ∧ (ds == bs) = true) ↔ ∀ b ∈ bs, P b := by
  simp only [mapM_eq_ok_iff, beq_iff_forall₂]
  induction h with
  | nil => exact ⟨fun _ => List.forall_mem_nil P, fun _ => ⟨[], .nil, .nil⟩⟩
  | cons first later ih =>
      rw [List.forall_mem_cons, ← first, ← ih]
      constructor
      · rintro ⟨ds, reads, equals⟩
        cases reads with
        | cons read reads =>
            cases equals with
            | cons equal equals => exact ⟨⟨_, read, equal⟩, _, reads, equals⟩
      · rintro ⟨⟨d, read, equal⟩, ds, reads, equals⟩
        exact ⟨d :: ds, .cons read reads, .cons equal equals⟩

end CharacterRules
