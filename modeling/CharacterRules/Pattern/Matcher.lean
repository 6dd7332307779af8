import CharacterRules.Pattern.CharSet

/-!
Patterns over text and the search for a match. A pattern maps the set of positions where a match
may begin to the set where it may end, so a search needs no backtracking.
-/

namespace CharacterRules

/-- A condition on a position. -/
inductive Anchor where
  | textStart
  | textEnd
  | lineStart
  | lineEnd
  | wordBoundary
  | notWordBoundary
  | wordStart
  | wordEnd
  | wordStartHalf
  | wordEndHalf
  deriving DecidableEq

/-- A pattern over text. -/
inductive Regex where
  | empty
  | set (s : CharSet)
  | anchor (a : Anchor)
  | sequence (r s : Regex)
  | choice (r s : Regex)
  /-- At least `least` repetitions, and at most `most` if there is a bound. -/
  | repetition (r : Regex) (least : Nat) (most : Option Nat)
  deriving DecidableEq

namespace Anchor

/-- Whether the condition holds at position `i`. -/
def holds (a : Anchor) (text : Array Char) (i : Nat) : Bool :=
  let before := if i = 0 then none else text[i - 1]?
  let after := text[i]?
  let wordBefore := before.any CharClass.word.contains
  let wordAfter := after.any CharClass.word.contains
  match a with
  | .textStart => before.isNone
  | .textEnd => after.isNone
  | .lineStart => before.isNone || before == some '\n'
  | .lineEnd => after.isNone || after == some '\n'
  | .wordBoundary => wordBefore != wordAfter
  | .notWordBoundary => wordBefore == wordAfter
  | .wordStart => !wordBefore && wordAfter
  | .wordEnd => wordBefore && !wordAfter
  | .wordStartHalf => !wordBefore
  | .wordEndHalf => !wordAfter

end Anchor

/-- The union of two ascending lists of positions. -/
def mergePositions : List Nat → List Nat → List Nat
  | [], ys => ys
  | xs, [] => xs
  | x :: xs, y :: ys =>
    if x < y then x :: mergePositions xs (y :: ys)
    else if y < x then y :: mergePositions (x :: xs) ys
    else x :: mergePositions xs ys
termination_by xs ys => xs.length + ys.length

namespace Regex

/-- Applies a step exactly `count` times. -/
def iterate (step : List Nat → List Nat) : Nat → List Nat → List Nat
  | 0, starts => starts
  | count + 1, starts => iterate step count (step starts)

/-- The positions reached by at most `count` steps, ending early once nothing is added. -/
def reach (step : List Nat → List Nat) : Nat → List Nat → List Nat
  | 0, starts => starts
  | count + 1, starts =>
    let next := mergePositions starts (step starts)
    if next.length = starts.length then starts else reach step count next

/-- The positions, ascending, where a match that begins at one of `starts` may end. -/
def ends (text : Array Char) : Regex → List Nat → List Nat
  | .empty, starts => starts
  | .set s, starts =>
    starts.filterMap fun i => (text[i]?.filter s.contains).map fun _ => i + 1
  | .anchor a, starts => starts.filter fun i => a.holds text i
  | .sequence r s, starts => s.ends text (r.ends text starts)
  | .choice r s, starts => mergePositions (r.ends text starts) (s.ends text starts)
  | .repetition r least most, starts =>
    let first := iterate (r.ends text) least starts
    match most with
    | some most => reach (r.ends text) (most - least) first
    -- there are no more positions than this, so a step past them adds none
    | none => reach (r.ends text) (text.size + 1) first

def isMatch (r : Regex) (text : String) : Bool :=
  let characters := text.toList.toArray
  !(r.ends characters (List.range (characters.size + 1))).isEmpty

end Regex
end CharacterRules
