import CharacterRules.Number.Basic

/-!
The shortest decimal that reads back. Among the decimals with the fewest digits that are nearer
to a number than to any other number, the one nearest to it is taken.
-/

namespace CharacterRules.Number

/-- Which of two equally near decimals is taken. -/
inductive TieRule where
  | up
  | even
  deriving DecidableEq

/-- The exact decimal `digits · 10 ^ exponent`. -/
structure Decimal where
  digits : Nat
  exponent : Int
  deriving DecidableEq, Inhabited

namespace Shortest

/-- The count of decimal digits of a natural number. -/
def width (n : Nat) : Nat := (Nat.toDigits 10 n).length

/-- The exponent of the leading decimal digit of the positive fraction
`numerator / denominator`. -/
def leadingExponent (numerator denominator : Nat) : Int :=
  if denominator ≤ numerator then (width (numerator / denominator) : Int) - 1
  else -(width ((denominator - 1) / numerator) : Int)

/-- The numbers that read back as `numerator / denominator` lie between `numerator - below` and
`numerator + above` over the denominator; the ends count if `closed`. -/
structure Interval where
  numerator : Nat
  denominator : Nat
  below : Nat
  above : Nat
  closed : Bool

/-- The interval of `mantissa · 2 ^ exponent`, in quarters of the last place. Below a power of two
the numbers are twice as dense. -/
def Interval.ofParts (mantissa : Nat) (exponent : Int) : Interval :=
  let shift := Nat.min (52 - mantissa.log2) (exponent + 1074).toNat
  let full := mantissa <<< shift
  let exponent := exponent - shift - 2
  let up := exponent.toNat
  let down := (-exponent).toNat
  { numerator := (4 * full) <<< up
    denominator := 1 <<< down
    below := (if full = 2 ^ 52 ∧ -1076 < exponent then 1 else 2) <<< up
    above := 2 <<< up
    -- the ends are ties, which go to the number with the even mantissa
    closed := full % 2 == 0 }

/-- The multiple of `10 ^ exponent` in the interval that is nearest to its middle. -/
def onGrid? (interval : Interval) (tie : TieRule) (exponent : Int) : Option Nat :=
  let scale := 10 ^ (-exponent).toNat
  let unit := 10 ^ exponent.toNat * interval.denominator
  let value := interval.numerator * scale
  let low := value / unit
  let toLow := value - low * unit
  let toHigh := (low + 1) * unit - value
  let inside (distance reach : Nat) : Bool :=
    if interval.closed then distance ≤ reach else distance < reach
  let lowIn := 0 < low && inside toLow (interval.below * scale)
  let highIn := inside toHigh (interval.above * scale)
  if lowIn && highIn then
    let takeHigh :=
      toHigh < toLow || (toHigh == toLow && (tie == .up || low % 2 == 1))
    some (if takeHigh then low + 1 else low)
  else if lowIn then some low
  else if highIn then some (low + 1)
  else none

/-- Searches the grids from coarse to fine, `fuel` of them. -/
def search (interval : Interval) (tie : TieRule) : Nat → Int → Decimal
  | 0, exponent => ⟨interval.numerator / interval.denominator, exponent⟩
  | fuel + 1, exponent =>
    match onGrid? interval tie exponent with
    | some digits => ⟨digits, exponent⟩
    | none => search interval tie fuel (exponent - 1)

/-- Moves trailing zeros of the digits into the exponent. -/
def trimZeros : Nat → Decimal → Decimal
  | 0, d => d
  | fuel + 1, d =>
    if d.digits % 10 = 0 ∧ d.digits ≠ 0 then trimZeros fuel ⟨d.digits / 10, d.exponent + 1⟩ else d

end Shortest

open Shortest in
/-- The shortest decimal of `mantissa · 2 ^ exponent`, for a positive mantissa; seventeen digits
always suffice. -/
def shortestDecimal (tie : TieRule) (mantissa : Nat) (exponent : Int) : Decimal :=
  let interval := Interval.ofParts mantissa exponent
  trimZeros 20
    (search interval tie 18 (leadingExponent interval.numerator interval.denominator))

end CharacterRules.Number
