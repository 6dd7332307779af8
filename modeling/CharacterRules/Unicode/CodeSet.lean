/-!
Sets of characters given by the code points at which membership changes.
-/

namespace CharacterRules.Unicode

/-- A set of characters. The boundaries ascend; below the first no character is a member, and
membership changes at each. -/
structure CodeSet where
  boundaries : Array Nat

/-- The number of leading elements of `xs` from `low` up to `high` that `below` accepts, for a
test that accepts exactly an initial part. -/
def bisect {α : Type} (xs : Array α) (below : α → Bool) (low high : Nat) : Nat :=
  if low < high then
    let middle := (low + high) / 2
    match xs[middle]? with
    | some x => if below x then bisect xs below (middle + 1) high else bisect xs below low middle
    | none => low
  else low
termination_by high - low

namespace CodeSet

/-- Whether a code point is in the set. -/
def containsCode (s : CodeSet) (code : Nat) : Bool :=
  bisect s.boundaries (· ≤ code) 0 s.boundaries.size % 2 == 1

def contains (s : CodeSet) (c : Char) : Bool := s.containsCode c.toNat

end CodeSet
end CharacterRules.Unicode
