import CharacterRules.Generation.Fill
import CharacterRules.Proofs.Ruleset.BaseRule

/-!
What the acceptance of single picks guarantees for a whole fill. A fill goes from selection to
selection; each step keeps a pick that was accepted or takes one back. So what an accepted pick
cannot bring about, a fill cannot either: the budget of the category is not overspent, and no fact
comes up that rules picks out. Only a fact that is reported already escapes the comparison, and a
budget with points left is reported: its shortfall can turn into an overspend.
-/

namespace CharacterRules

namespace Filling

variable {f : Filling} {r : Ruleset}

theorem accepts_iff {before after : Snapshot} : f.accepts before after = true ↔
    f.isOverspent after = false ∧ ∀ fact ∈ Attributes.violations after,
      fact ∉ Attributes.violations before → blocks fact after = false := by
  simp only [accepts, Bool.and_eq_true, Bool.not_eq_true', List.any_eq_false, not_and,
    Bool.not_eq_true, List.contains_eq_mem, decide_eq_false_iff_not]

/-- An accepted pick brings no fact up that rules picks out. -/
theorem mem_violations_of_accepts {before after : Snapshot} (h : f.accepts before after = true)
    {fact : String} (violated : fact ∈ Attributes.violations after)
    (blocking : blocks fact after = true) : fact ∈ Attributes.violations before := by
  refine Decidable.byContradiction fun new => ?_
  rw [(accepts_iff.mp h).2 fact violated new] at blocking
  cases blocking

/-- The selections on the way of a fill from one selection to another, one for each pick that was
tried: it was taken back, or it was accepted and kept. -/
inductive Path (f : Filling) (r : Ruleset) : Selection → List Selection → Selection → Prop
  | refl (s : Selection) : Path f r s [] s
  | rejected {s t : Selection} {way : List Selection} (rest : Path f r s way t) :
      Path f r s (s :: way) t
  | kept {s m t : Selection} {way : List Selection}
      (accepted : f.accepts (r.evaluate s) (r.evaluate m) = true) (rest : Path f r m way t) :
      Path f r s (m :: way) t

theorem Path.append {s m t : Selection} {way more : List Selection} (h : f.Path r s way m)
    (h' : f.Path r m more t) : f.Path r s (way ++ more) t := by
  induction h with
  | refl s => exact h'
  | rejected rest ih => exact .rejected (ih h')
  | kept accepted rest ih => exact .kept accepted (ih h')

/-- What every accepted pick on the way must have found as it leaves it, a fill must have found. -/
theorem Path.backwards {s t : Selection} {way : List Selection} {P : Selection → Prop}
    (h : f.Path r s way t)
    (found : ∀ u ∈ s :: way, ∀ v, f.accepts (r.evaluate u) (r.evaluate v) = true → P v → P u)
    (ends : P t) : P s := by
  -- Acceptance looks back: it speaks about a sheet by what the one before reports. So the property
  -- is carried from the end of the fill to its beginning.
  induction h with
  | refl s => exact ends
  | rejected rest ih => exact ih (fun u hu => found u (List.mem_cons_of_mem _ hu)) ends
  | kept accepted rest ih =>
      have later := ih (fun u hu => found u (List.mem_cons_of_mem _ hu)) ends
      exact found _ List.mem_cons_self _ accepted later

/-- The selections that a run goes through behind the one it begins with. -/
def way (f : Filling) (r : Ruleset) (pool : Option (List String)) (limit : Nat) :
    Nat → FillProgress → Random → List Selection
  | 0, _, _ => []
  | attempts + 1, p, random =>
    let sheet := r.evaluate p.selection
    if limit ≤ p.kept || (f.remaining sheet p.kept).le 0 then []
    else
      match r.choosePick? f.category p.selection (f.candidates r pool p sheet) random with
      | (none, _) => []
      | (some pick, random) =>
        let q := f.attempt r p sheet pick
        q.selection :: f.way r pool limit attempts q random

theorem Path.attempt {p : FillProgress} {pick : Pick} {t : Selection} {way : List Selection}
    (h : f.Path r (f.attempt r p (r.evaluate p.selection) pick).selection way t) :
    f.Path r p.selection
      ((f.attempt r p (r.evaluate p.selection) pick).selection :: way) t := by
  simp only [Filling.attempt] at h ⊢
  split at h
  · rename_i accepted
    rw [if_pos accepted]
    exact .kept accepted h
  · rename_i refused
    rw [if_neg refused]
    exact .rejected h

theorem path_run (f : Filling) (r : Ruleset) (pool : Option (List String))
    (limit attempts : Nat) (p : FillProgress) (random : Random) :
    f.Path r p.selection (f.way r pool limit attempts p random)
      (f.run r pool limit attempts p random).1.selection := by
  induction attempts generalizing p random with
  | zero => exact .refl p.selection
  | succ attempts ih =>
      rw [way, run]
      dsimp only
      split
      · exact .refl p.selection
      · obtain ⟨pick?, rest, chosen⟩ : ∃ pick? rest, r.choosePick? f.category p.selection
            (f.candidates r pool p (r.evaluate p.selection)) random = (pick?, rest) :=
          ⟨_, _, rfl⟩
        rw [chosen]
        cases pick? with
        | none => exact .refl p.selection
        | some pick => exact (ih _ rest).attempt

theorem run_of_remaining_le {p : FillProgress}
    (spent : (f.remaining (r.evaluate p.selection) p.kept).le 0 = true)
    (pool : Option (List String)) (limit attempts : Nat) (random : Random) :
    (f.run r pool limit attempts p random).1 = p := by
  cases attempts with
  | zero => rfl
  | succ attempts => rw [run, spent, Bool.or_true, if_pos rfl]

end Filling

namespace Ruleset

/-- The selections that the first run of a fill goes through, the one for power points. -/
def powerEdgeWay (r : Ruleset) (f : Filling) (p : FillProgress) (random : Random) :
    List Selection :=
  let sheet := r.evaluate p.selection
  if Number.lt 0 (Attributes.number sheet "powerPoints") then
    let attempts := r.generation.maxAttempts
    let limit := r.divertedPicks (f.remaining sheet p.kept) attempts
    f.way r r.powerPointEdges limit attempts p random
  else []

/-- The selections that a fill by picks goes through behind the one it begins with. -/
def pickWay (r : Ruleset) (f : Filling) (s : Selection) (random : Random) : List Selection :=
  let first := if f.category = .edges then r.powerEdgeWay f ⟨s, {}, 0, 0⟩ random else []
  let (p, random) :=
    if f.category = .edges then r.fillPowerEdges f ⟨s, {}, 0, 0⟩ random
    else (⟨s, {}, 0, 0⟩, random)
  let attempts := r.generation.maxAttempts - p.tried
  first ++ f.way r none (p.kept + attempts) attempts p random

/-- The selections that the fill of a category goes through, from the one it begins with on. -/
def fillWay (r : Ruleset) (category : Category) (s : Selection) (frozen : Std.TreeSet String)
    (random : Random) : List Selection :=
  match drawAllowance category random with
  | (none, _) => [s]
  | (some allowance, random) => s :: r.pickWay ⟨category, allowance, frozen⟩ s random

theorem path_fillPowerEdges (r : Ruleset) (f : Filling) (p : FillProgress) (random : Random) :
    f.Path r p.selection (r.powerEdgeWay f p random) (r.fillPowerEdges f p random).1.selection := by
  rw [powerEdgeWay, fillPowerEdges]
  dsimp only
  split
  · exact f.path_run r _ _ _ p random
  · exact .refl p.selection

theorem path_fillByPicks (r : Ruleset) (f : Filling) (s : Selection) (random : Random) :
    f.Path r s (r.pickWay f s random) (r.fillByPicks f s random).1.selection := by
  simp only [pickWay, fillByPicks]
  split
  · exact (r.path_fillPowerEdges f ⟨s, {}, 0, 0⟩ random).append (f.path_run r _ _ _ _ _)
  · exact f.path_run r _ _ _ ⟨s, {}, 0, 0⟩ random

theorem drawAllowance_of_ofCategory? {category : Category} {b : Budget}
    (points : Budget.ofCategory? category = some b) (random : Random) :
    drawAllowance category random = (some (.points b), random) := by
  have drawn : drawAllowance category random =
      ((Budget.ofCategory? category).map .points, random) := by
    cases category <;> first | rfl | cases points
  rw [drawn, points]
  rfl

theorem fill_of_drawAllowance {r : Ruleset} {category : Category}
    (picked : category.isDirect = false) {random rest : Random} {allowance : Allowance}
    (drawn : drawAllowance category random = (some allowance, rest))
    (frozen : Std.TreeSet String) (s : Selection) :
    (r.fill category frozen s random).1 =
      (r.fillByPicks ⟨category, allowance, frozen⟩ s rest).1.selection := by
  rw [fill, picked, if_neg Bool.false_ne_true, drawn]

theorem path_fill (r : Ruleset) {category : Category} (picked : category.isDirect = false)
    (frozen : Std.TreeSet String) (s : Selection) (random : Random) :
    ∃ (f : Filling) (way : List Selection), r.fillWay category s frozen random = s :: way ∧
      f.Path r s way (r.fill category frozen s random).1 := by
  rw [fillWay, fill, picked, if_neg Bool.false_ne_true]
  obtain ⟨allowance?, rest, drawn⟩ : ∃ allowance? rest,
      drawAllowance category random = (allowance?, rest) := ⟨_, _, rfl⟩
  rw [drawn]
  cases allowance? with
  | none => exact ⟨⟨category, .count 0, frozen⟩, [], rfl, .refl s⟩
  | some allowance => exact ⟨_, _, rfl, r.path_fillByPicks ⟨category, allowance, frozen⟩ s rest⟩

theorem isExceeded_of_fill {r : Ruleset} {category : Category} {b : Budget}
    (points : Budget.ofCategory? category = some b) {frozen : Std.TreeSet String} {s : Selection}
    {random : Random}
    (after : b.isExceeded (r.evaluate (r.fill category frozen s random).1) = true) :
    b.isExceeded (r.evaluate s) = true := by
  have picked := Budget.isDirect_of_ofCategory? points
  have drawn := drawAllowance_of_ofCategory? points random
  rw [fill_of_drawAllowance picked drawn] at after
  refine (r.path_fillByPicks _ s random).backwards
    (P := fun u => b.isExceeded (r.evaluate u) = true) (fun u _ v accepted exceeded => ?_) after
  have within : b.isExceeded (r.evaluate v) = false := (Filling.accepts_iff.mp accepted).1
  rw [within] at exceeded
  cases exceeded

theorem fill_of_isExceeded {r : Ruleset} {category : Category} {b : Budget}
    (points : Budget.ofCategory? category = some b) {s : Selection}
    (before : b.isExceeded (r.evaluate s) = true) (frozen : Std.TreeSet String)
    (random : Random) : (r.fill category frozen s random).1 = s := by
  have picked := Budget.isDirect_of_ofCategory? points
  have drawn := drawAllowance_of_ofCategory? points random
  rw [fill_of_drawAllowance picked drawn]
  generalize filling : Filling.mk category (.points b) frozen = f
  have spent : (f.remaining (r.evaluate s) 0).le 0 = true := by
    rw [← filling]
    exact Number.le_zero_sub_of_lt before
  have stays : ∀ pool limit attempts random,
      (f.run r pool limit attempts ⟨s, {}, 0, 0⟩ random).1 = ⟨s, {}, 0, 0⟩ :=
    Filling.run_of_remaining_le (p := ⟨s, {}, 0, 0⟩) spent
  have first : (r.fillPowerEdges f ⟨s, {}, 0, 0⟩ random).1 = ⟨s, {}, 0, 0⟩ := by
    rw [fillPowerEdges]
    dsimp only
    split
    · exact stays _ _ _ random
    · rfl
  rw [fillByPicks]
  dsimp only
  split
  · rw [first, stays]
  · rw [stays]

/-- A fill of a category with points never overspends them: if they are not overspent before, they
are not afterwards, and if they are, nothing changes. A violated fact that watches no budget was
violated before. -/
theorem isExceeded_fill (r : Ruleset) (category : Category) (b : Budget)
    (points : Budget.ofCategory? category = some b) (frozen : Std.TreeSet String) (s : Selection)
    (random : Random) :
    (b.isExceeded (r.evaluate s) = false →
      b.isExceeded (r.evaluate (r.fill category frozen s random).1) = false) ∧
    (b.isExceeded (r.evaluate s) = true → (r.fill category frozen s random).1 = s) ∧
    ∀ fact ∈ Attributes.violations (r.evaluate (r.fill category frozen s random).1),
      Budget.ofFact? fact = none → fact ∈ Attributes.violations (r.evaluate s) := by
  refine ⟨fun before => ?_, fun before => fill_of_isExceeded points before frozen random, ?_⟩
  · refine Bool.eq_false_iff.mpr fun after => ?_
    rw [isExceeded_of_fill points after] at before
    cases before
  · intro fact violated unwatched
    obtain ⟨f, way, -, path⟩ :=
      r.path_fill (Budget.isDirect_of_ofCategory? points) frozen s random
    refine path.backwards (P := fun u => fact ∈ Attributes.violations (r.evaluate u))
      (fun u _ v accepted later => ?_) violated
    exact Filling.mem_violations_of_accepts accepted later (by rw [Filling.blocks, unwatched]; rfl)

/-- Suppose that the fact of a budget is never reported as a shortfall on the way of a fill, or that
the budget is the one of the category and the fact tells the truth about it in the end. Then the fact
reports an overspend after the fill only if it did before. -/
theorem reportsOverspend_of_fill (r : Ruleset) (category : Category)
    (picked : category.isDirect = false) (b : Budget) (known : b ∈ Budget.all)
    (frozen : Std.TreeSet String) (s : Selection) (random : Random)
    (cause : (∀ t ∈ r.fillWay category s frozen random,
        b.reportsShortfall (r.evaluate t) = false) ∨
      Budget.ofCategory? category = some b ∧
        (b.reportsOverspend (r.evaluate (r.fill category frozen s random).1) = true →
          b.isExceeded (r.evaluate (r.fill category frozen s random).1) = true))
    (after : b.reportsOverspend (r.evaluate (r.fill category frozen s random).1) = true) :
    b.reportsOverspend (r.evaluate s) = true := by
  rcases cause with unspent | ⟨points, truthful⟩
  -- Without a shortfall, a fact that is reported at all reports an overspend.
  · obtain ⟨f, way, visited, path⟩ := r.path_fill picked frozen s random
    rw [visited] at unspent
    refine path.backwards (P := fun u => b.reportsOverspend (r.evaluate u) = true)
      (fun u visited v accepted overspent => ?_) after
    have violated : b.fact ∈ Attributes.violations (r.evaluate v) :=
      (Budget.mem_violations known).mpr (Attributes.truthy_of_lt_zero overspent)
    have blocking : Filling.blocks b.fact (r.evaluate v) = true := by
      rw [Filling.blocks]
      exact Bool.or_eq_true_iff.mpr (.inr overspent)
    have reported := (Budget.mem_violations known).mp
      (Filling.mem_violations_of_accepts accepted violated blocking)
    have shortfall := unspent u visited
    rw [Budget.reportsShortfall, reported, Bool.true_and, Bool.not_eq_false'] at shortfall
    exact shortfall
  -- An overspend of the category's own points was there from the start, so nothing was bought.
  · have exceeded := isExceeded_of_fill points (truthful after)
    rwa [fill_of_isExceeded points exceeded] at after

/-- An edge that costs its owner more skill points than there are. -/
def bookwormEdge : Catalog :=
  .ofSource {("edges", {("Bookworm", "Section=skill Note=\"-14 Skill Points\"")})}

/-- Hindrances that give two edge points and are two points too many. -/
def manyHindrances : Selection := {("hindrancePoints", .number 6)}

/-- What filling the edges does to the budgets of edges, skills and hindrances. -/
def TakesBookworm (r : Ruleset) (edges skills hindrances : Budget) (t : Selection) : Prop :=
  truthy t["edges.Bookworm"]? = true ∧
  edges.isExceeded (r.evaluate manyHindrances) = false ∧
  skills.reportsOverspend (r.evaluate manyHindrances) = false ∧
  skills.reportsOverspend (r.evaluate t) = true ∧
  hindrances.reportsOverspend (r.evaluate t) = true ∧
  ∀ u ∈ r.fillWay .edges manyHindrances {} (.ofSeed 42),
    hindrances.reportsShortfall (r.evaluate u) = false

instance (r : Ruleset) (edges skills hindrances : Budget) (t : Selection) :
    Decidable (TakesBookworm r edges skills hindrances t) := by
  unfold TakesBookworm
  infer_instance

theorem exists_takesBookworm : ∃ r edges skills hindrances, ofCatalog bookwormEdge = .ok r ∧
    Budget.ofCategory? .edges = some edges ∧ Budget.ofCategory? .skills = some skills ∧
    Budget.ofCategory? .hindrances = some hindrances ∧
    TakesBookworm r edges skills hindrances (r.fill .edges {} manyHindrances (.ofSeed 42)).1 := by
  have fit : KeysFit bookwormEdge := by decide +kernel
  have found : (Budget.ofCategory? .edges).any (fun edges => (Budget.ofCategory? .skills).any fun skills =>
      (Budget.ofCategory? .hindrances).any fun hindrances =>
        decide (TakesBookworm (assembledOf bookwormEdge) edges skills hindrances
          ((assembledOf bookwormEdge).fill .edges {} manyHindrances (.ofSeed 42)).1)) = true := by
    decide +kernel
  simp only [Option.any_eq_true, decide_eq_true_eq] at found
  obtain ⟨edges, hedges, skills, hskills, hindrances, hhindrances, takes⟩ := found
  exact ⟨_, edges, skills, hindrances, ofCatalog_eq_of_keysFit fit, hedges, hskills, hhindrances, takes⟩

/-- The edge is bought and the edge points are not overspent. -/
theorem isExceeded_fill_bookwormEdge : ∃ r edges, ofCatalog bookwormEdge = .ok r ∧
    Budget.ofCategory? .edges = some edges ∧
    edges.isExceeded (r.evaluate manyHindrances) = false ∧
    truthy (r.fill .edges {} manyHindrances (.ofSeed 42)).1["edges.Bookworm"]? = true ∧
    edges.isExceeded (r.evaluate (r.fill .edges {} manyHindrances (.ofSeed 42)).1) = false := by
  obtain ⟨r, edges, _, _, compiled, points, -, -, bought, unspent, -⟩ := exists_takesBookworm
  have result := r.isExceeded_fill .edges edges points {} manyHindrances (.ofSeed 42)
  exact ⟨r, edges, compiled, points, unspent, bought, result.1 unspent⟩

/-- The overspend of hindrances that is reported afterwards was reported before. -/
theorem reportsOverspend_of_fill_bookwormEdge : ∃ r hindrances, ofCatalog bookwormEdge = .ok r ∧
    hindrances ∈ Budget.all ∧
    (∀ t ∈ r.fillWay .edges manyHindrances {} (.ofSeed 42),
      hindrances.reportsShortfall (r.evaluate t) = false) ∧
    hindrances.reportsOverspend
      (r.evaluate (r.fill .edges {} manyHindrances (.ofSeed 42)).1) = true ∧
    hindrances.reportsOverspend (r.evaluate manyHindrances) = true := by
  obtain ⟨r, _, _, hindrances, compiled, -, -, watched, takes⟩ := exists_takesBookworm
  obtain ⟨-, -, -, -, overspent, unspent⟩ := takes
  have known := Budget.mem_all_of_ofCategory? watched
  exact ⟨r, hindrances, compiled, known, unspent, overspent,
    r.reportsOverspend_of_fill .edges rfl hindrances known {} manyHindrances (.ofSeed 42)
      (.inl unspent) overspent⟩

/-- The edge turns the shortfall of the skill points into an overspend, and is kept. -/
theorem reportsOverspend_after_bookwormEdge : ∃ r skills, ofCatalog bookwormEdge = .ok r ∧
    skills ∈ Budget.all ∧ skills.reportsOverspend (r.evaluate manyHindrances) = false ∧
    skills.reportsOverspend (r.evaluate (r.fill .edges {} manyHindrances (.ofSeed 42)).1) = true := by
  obtain ⟨r, _, skills, _, compiled, -, watched, -, takes⟩ := exists_takesBookworm
  obtain ⟨-, -, before, after, -⟩ := takes
  exact ⟨r, skills, compiled, Budget.mem_all_of_ofCategory? watched, before, after⟩

end Ruleset
end CharacterRules
