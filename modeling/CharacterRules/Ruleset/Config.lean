import CharacterRules.Number.Basic

/-!
Settings of the repair and the generation of characters. Setters keep every setting in its range.
-/

namespace CharacterRules

structure RepairConfig where
  /-- The most passes of a run. -/
  maxPasses : Nat := 8

namespace RepairConfig

/-- Sets the most passes; there is at least one. -/
def withMaxPasses (c : RepairConfig) (passes : Nat) : RepairConfig :=
  { c with maxPasses := max passes 1 }

end RepairConfig

structure GenerationConfig where
  /-- The probability to draw from what the concept prefers. -/
  affinity : Number := Number.ofRatio false 65 100
  /-- The most picks that are tried for a category. -/
  maxAttempts : Nat := 256
  /-- The part of the edge points that a caster sets aside for power points. -/
  capacity : Number := Number.ofRatio false 1 3

namespace GenerationConfig

/-- Sets the affinity, which lies between 0.6 and 0.7. -/
def withAffinity (c : GenerationConfig) (affinity : Number) : GenerationConfig :=
  { c with affinity := .clamp (.ofRatio false 6 10) (.ofRatio false 7 10) affinity }

/-- Sets the most attempts; there is at least one. -/
def withMaxAttempts (c : GenerationConfig) (attempts : Nat) : GenerationConfig :=
  { c with maxAttempts := max attempts 1 }

/-- Sets the capacity, which lies between zero and one. -/
def withCapacity (c : GenerationConfig) (capacity : Number) : GenerationConfig :=
  { c with capacity := .clamp 0 1 capacity }

end GenerationConfig
end CharacterRules
