import CharacterRules.Number.Basic
import CharacterRules.Random.Stream

/-!
Random choices. A source hands out the words of a stream one after another; choices among `count`
alternatives scale a word to the range and use a second word to correct the bias of the first.
-/

namespace CharacterRules

/-- A source of random words: a stream, and how many of its words have been used. -/
structure Random where
  key : StreamKey
  position : Nat := 0

namespace Random

def ofSeed (seed : UInt64) : Random := ⟨StreamKey.ofSeed seed, 0⟩

def word (r : Random) : UInt32 × Random :=
  (r.key.word r.position, { r with position := r.position + 1 })

/-- The next two words as one number, the low one first. -/
def longWord (r : Random) : Nat × Random :=
  let (low, r) := r.word
  let (high, r) := r.word
  (low.toNat + high.toNat * 2 ^ 32, r)

/-- A number below `count`. -/
def below (count : Nat) (r : Random) : Nat × Random :=
  let (first, r) := r.word
  let product := first.toNat * count
  let high := product / 2 ^ 32
  let low := product % 2 ^ 32
  -- only here can the part of the product that a single word leaves out reach `high`
  if 2 ^ 32 - count < low then
    let (second, r) := r.word
    let carry := low + second.toNat * count / 2 ^ 32
    (if 2 ^ 32 ≤ carry then high + 1 else high, r)
  else (high, r)

/-- True with the given probability, which is at least zero and below one. -/
def chance (probability : Number) (r : Random) : Bool × Random :=
  let (drawn, r) := r.longWord
  let bound := ((probability * Number.ofNat (2 ^ 64)).floor.toInt?.getD 0).toNat
  (drawn < bound, r)

/-- One of the alternatives, if there are any; nothing is drawn otherwise. -/
def choose? {α : Type} (alternatives : List α) (r : Random) : Option α × Random :=
  match alternatives with
  | [] => (none, r)
  | first :: rest =>
    let (i, r) := r.below (rest.length + 1)
    (some ((first :: rest)[i]?.getD first), r)

end Random
end CharacterRules
