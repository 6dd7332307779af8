/-!
Binary floating-point numbers of 64 bits, kept as exact integers. A finite number is
`± mantissa · 2 ^ exponent` in a normal form that each value has once, so integers below
`2 ^ 53` are their own mantissa. Arithmetic computes the exact result and rounds it once to the
nearest number, ties to the even mantissa.
-/

namespace CharacterRules

-- Powers of naturals are those of the core library, also next to an algebraic hierarchy.
attribute [scoped instance (high)] instPowNat
attribute [default_instance (high + 1)] instPowNat

/-- The normal form of a finite number: an integer below `2 ^ 53` has exponent zero, a larger one
a full mantissa, and a fraction an odd one. -/
def IsNormal (mantissa : Nat) (exponent : Int) : Prop :=
  mantissa < 2 ^ 53 ∧
    (exponent = 0 ∨
      (0 < exponent ∧ exponent ≤ 971 ∧ 2 ^ 52 ≤ mantissa) ∨
      (exponent < 0 ∧ -1074 ≤ exponent ∧ mantissa % 2 = 1))

instance (mantissa : Nat) (exponent : Int) : Decidable (IsNormal mantissa exponent) := by
  unfold IsNormal; infer_instance

/-- A 64-bit binary floating-point number. Zero has two signs; all not-a-number payloads are
one value. -/
inductive Number where
  | nan
  | infinity (negative : Bool)
  | finite (negative : Bool) (mantissa : Nat) (exponent : Int) (normal : IsNormal mantissa exponent)
  deriving DecidableEq

namespace Number

def signedZero (negative : Bool) : Number :=
  .finite negative 0 0 (by decide)

instance : Inhabited Number := ⟨signedZero false⟩

/-- Divides `m` by two while it is even and `fuel` lasts; the second part is the fuel left. -/
def stripTwos (m : Nat) : Nat → Nat × Nat
  | 0 => (m, 0)
  | fuel + 1 => if m % 2 = 0 then stripTwos (m / 2) fuel else (m, fuel + 1)

/-- The normal form of the integer `m · 2 ^ k`. -/
def raise (m k : Nat) : Nat × Int :=
  if m.log2 + k < 53 then (m <<< k, 0)
  else if m.log2 ≤ 52 then (m <<< (52 - m.log2), (k : Int) - (52 - m.log2 : Nat))
  else (m >>> (m.log2 - 52), (k : Int) + (m.log2 - 52 : Nat))

/-- The normal form of `m · 2 ^ e`, for `m` at most `2 ^ 53`. -/
def settle (m : Nat) : Int → Nat × Int
  | .ofNat k => if m = 0 then (0, 0) else raise m k
  | .negSucc k =>
    if m = 0 then (0, 0)
    else
      match stripTwos m (k + 1) with
      | (m', 0) => raise m' 0
      | (m', k' + 1) => (m', Int.negSucc k')

/-- The number `± m · 2 ^ e` for `m` at most `2 ^ 53`; what is too large is infinite. -/
def ofParts (negative : Bool) (m : Nat) (e : Int) : Number :=
  let p := settle m e
  if normal : IsNormal p.1 p.2 then .finite negative p.1 p.2 normal else .infinity negative

/-- The number nearest to `± (n + tail) · 2 ^ e`, where `tail` is a positive part below one if
`inexact` and zero otherwise. An inexact `n` has at least 55 bits. -/
def roundDyadic (negative : Bool) (n : Nat) (e : Int) (inexact : Bool) : Number :=
  -- the exponent of the last place: 53 bits are kept, and none below the least exponent
  let target := max (e + n.log2 - 52) (-1074)
  if target ≤ e then ofParts negative n e
  else
    let shift := (target - e).toNat
    let quotient := n >>> shift
    let rest := n - (quotient <<< shift)
    let half := 1 <<< (shift - 1)
    let up := half < rest || (rest == half && (inexact || quotient % 2 == 1))
    ofParts negative (if up then quotient + 1 else quotient) target

/-- The number nearest to a natural number. -/
def ofNat (n : Nat) : Number :=
  if h : n < 2 ^ 53 then .finite false n 0 ⟨h, .inl rfl⟩ else roundDyadic false n 0 false

/-- The number nearest to an integer. -/
def ofInt (i : Int) : Number :=
  if h : i.natAbs < 2 ^ 53 then .finite (i < 0) i.natAbs 0 ⟨h, .inl rfl⟩
  else roundDyadic (i < 0) i.natAbs 0 false

instance (n : Nat) : OfNat Number n := ⟨ofNat n⟩

/-- The number nearest to the quotient of two natural numbers, the second not zero. -/
def ofRatio (negative : Bool) (numerator denominator : Nat) : Number :=
  -- the quotient has 55 bits at least, so the remainder of the division decides only ties
  let shift := 55 + denominator.log2 - numerator.log2
  let scaled := numerator <<< shift
  roundDyadic negative (scaled / denominator) (-(shift : Int)) (scaled % denominator != 0)

def isFinite : Number → Bool
  | .finite .. => true
  | _ => false

def isNaN : Number → Bool
  | .nan => true
  | _ => false

/-- Whether the number is zero, of either sign. -/
def isZero : Number → Bool
  | .finite _ m _ _ => m == 0
  | _ => false

/-- Whether the number is finite without a fraction. -/
def isIntegral : Number → Bool
  | .finite _ _ e _ => 0 ≤ e
  | _ => false

/-- `± m` as an integer. -/
def signed (negative : Bool) (m : Nat) : Int :=
  if negative then -(m : Int) else m

/-- The integer a number without fraction stands for. -/
def toInt? : Number → Option Int
  | .finite negative m (.ofNat k) _ => some (signed negative (m <<< k))
  | _ => none

def neg : Number → Number
  | .nan => .nan
  | .infinity negative => .infinity (!negative)
  | .finite negative m e normal => .finite (!negative) m e normal

/-- The positive sign. -/
def abs : Number → Number
  | .nan => .nan
  | .infinity _ => .infinity false
  | .finite _ m e normal => .finite false m e normal

/-- Two mantissas brought to the smaller of their exponents. -/
def align (m₁ : Nat) (e₁ : Int) (m₂ : Nat) (e₂ : Int) : Nat × Nat × Int :=
  if e₁ = e₂ then (m₁, m₂, e₁)
  else if e₁ < e₂ then (m₁, m₂ <<< (e₂ - e₁).toNat, e₁)
  else (m₁ <<< (e₁ - e₂).toNat, m₂, e₂)

/-- The sum. A sum that cancels is positive zero. -/
def add : Number → Number → Number
  | .nan, _ => .nan
  | _, .nan => .nan
  | .infinity n₁, .infinity n₂ => if n₁ = n₂ then .infinity n₁ else .nan
  | .infinity n, _ => .infinity n
  | _, .infinity n => .infinity n
  | .finite n₁ m₁ e₁ _, .finite n₂ m₂ e₂ _ =>
    let (a, b, e) := align m₁ e₁ m₂ e₂
    let total := signed n₁ a + signed n₂ b
    if total = 0 then signedZero (n₁ && n₂) else roundDyadic (total < 0) total.natAbs e false

def sub (x y : Number) : Number := x.add y.neg

def mul : Number → Number → Number
  | .nan, _ => .nan
  | _, .nan => .nan
  | .infinity n₁, .infinity n₂ => .infinity (n₁ != n₂)
  | .infinity n₁, .finite n₂ m₂ _ _ => if m₂ = 0 then .nan else .infinity (n₁ != n₂)
  | .finite n₁ m₁ _ _, .infinity n₂ => if m₁ = 0 then .nan else .infinity (n₁ != n₂)
  | .finite n₁ m₁ e₁ _, .finite n₂ m₂ e₂ _ =>
    if m₁ = 0 || m₂ = 0 then signedZero (n₁ != n₂)
    else roundDyadic (n₁ != n₂) (m₁ * m₂) (e₁ + e₂) false

def div : Number → Number → Number
  | .nan, _ => .nan
  | _, .nan => .nan
  | .infinity _, .infinity _ => .nan
  | .infinity n₁, .finite n₂ .. => .infinity (n₁ != n₂)
  | .finite n₁ .., .infinity n₂ => signedZero (n₁ != n₂)
  | .finite n₁ m₁ e₁ _, .finite n₂ m₂ e₂ _ =>
    if m₂ = 0 then (if m₁ = 0 then .nan else .infinity (n₁ != n₂))
    else if m₁ = 0 then signedZero (n₁ != n₂)
    else
      let shift := 55 + m₂.log2 - m₁.log2
      let scaled := m₁ <<< shift
      roundDyadic (n₁ != n₂) (scaled / m₂) (e₁ - e₂ - shift) (scaled % m₂ != 0)

/-- The remainder of the division that truncates toward zero; it has the sign of the dividend. -/
def rem : Number → Number → Number
  | .nan, _ => .nan
  | _, .nan => .nan
  | .infinity _, _ => .nan
  | x@(.finite ..), .infinity _ => x
  | .finite n₁ m₁ e₁ _, .finite _ m₂ e₂ _ =>
    if m₂ = 0 then .nan
    else
      let (a, b, e) := align m₁ e₁ m₂ e₂
      if a % b = 0 then signedZero n₁ else roundDyadic n₁ (a % b) e false

instance : Neg Number := ⟨neg⟩
instance : Add Number := ⟨add⟩
instance : Sub Number := ⟨sub⟩
instance : Mul Number := ⟨mul⟩
instance : Div Number := ⟨div⟩
instance : Mod Number := ⟨rem⟩

/-- The order of two numbers; not-a-number is comparable with nothing, and the zeros are equal. -/
def order? : Number → Number → Option Ordering
  | .nan, _ => none
  | _, .nan => none
  | .infinity n₁, .infinity n₂ => some (if n₁ = n₂ then .eq else if n₁ then .lt else .gt)
  | .infinity n, _ => some (if n then .lt else .gt)
  | _, .infinity n => some (if n then .gt else .lt)
  | .finite n₁ m₁ e₁ _, .finite n₂ m₂ e₂ _ =>
    let (a, b, _) := align m₁ e₁ m₂ e₂
    some (compare (signed n₁ a) (signed n₂ b))

/-- Numeric equality: the two zeros are equal and not-a-number is equal to nothing. -/
instance : BEq Number := ⟨fun x y => x.order? y == some .eq⟩

def lt (x y : Number) : Bool := x.order? y == some .lt

/-- Whether the first number is not above the second, and the two are comparable. -/
def le (x y : Number) : Bool :=
  match x.order? y with
  | some .lt | some .eq => true
  | _ => false

/-- The larger number, ignoring one that is not-a-number. -/
def max : Number → Number → Number
  | .nan, y => y
  | x, .nan => x
  | x, y => if x.lt y then y else x

/-- The smaller number, ignoring one that is not-a-number. -/
def min : Number → Number → Number
  | .nan, y => y
  | x, .nan => x
  | x, y => if y.lt x then y else x

/-- The number brought into a range; not-a-number stays. -/
def clamp (low high x : Number) : Number :=
  if x.lt low then low else if high.lt x then high else x

/-- The largest integer not above the number. -/
def floor : Number → Number
  | .finite negative m (.negSucc k) _ =>
    let whole := m >>> (k + 1)
    ofParts negative (if negative then whole + 1 else whole) 0
  | x => x

/-- The smallest integer not below the number. -/
def ceil : Number → Number
  | .finite negative m (.negSucc k) _ =>
    let whole := m >>> (k + 1)
    ofParts negative (if negative then whole else whole + 1) 0
  | x => x

def half : Number := ofParts false 1 (-1)

/-- The nearest integer, halves going up. -/
def round (x : Number) : Number := (x + half).floor

/-- One for true and zero for false. -/
def ofBool (b : Bool) : Number := if b then 1 else 0

end Number
end CharacterRules
