import CharacterRules.Unicode.Case
import CharacterRules.Unicode.Digit
import CharacterRules.Unicode.Space
import CharacterRules.Unicode.Word

/-!
The sets of characters a pattern can name, built from ranges and named classes by the operations of
bracketed classes.
-/

namespace CharacterRules

/-- The named classes of characters. -/
inductive CharClass where
  | digit
  | space
  | word
  deriving DecidableEq

/-- Whether a character is in a named class. -/
def CharClass.contains : CharClass → Char → Bool
  | .digit, c => Unicode.decimalDigit.contains c
  | .space, c => Unicode.isSpace c
  | .word, c => Unicode.word.contains c

/-- A set of characters. -/
inductive CharSet where
  | empty
  | range (low high : Char)
  | named (c : CharClass)
  | union (s t : CharSet)
  | intersection (s t : CharSet)
  | difference (s t : CharSet)
  | exclusive (s t : CharSet)
  | complement (s : CharSet)
  /-- All cases of the members. -/
  | anyCase (s : CharSet)
  deriving DecidableEq

namespace CharSet

def contains : CharSet → Char → Bool
  | .empty, _ => false
  | .range low high, c => low ≤ c && c ≤ high
  | .named k, c => k.contains c
  | .union s t, c => s.contains c || t.contains c
  | .intersection s t, c => s.contains c && t.contains c
  | .difference s t, c => s.contains c && !t.contains c
  | .exclusive s t, c => s.contains c != t.contains c
  | .complement s, c => !s.contains c
  | .anyCase s, c => (Unicode.caseOrbit c).any s.contains

def single (c : Char) : CharSet := .range c c

/-- The union of ranges. -/
def ranges : List (Char × Char) → CharSet
  | [] => .empty
  | [(low, high)] => .range low high
  | (low, high) :: rest => .union (.range low high) (ranges rest)

/-- The complement of a set, if asked for. -/
def negatedIf (negated : Bool) (s : CharSet) : CharSet :=
  if negated then .complement s else s

/-- The sets of ASCII characters that bracketed classes name between colons. -/
def ascii? : String → Option CharSet
  | "alnum" => some (ranges [('0', '9'), ('A', 'Z'), ('a', 'z')])
  | "alpha" => some (ranges [('A', 'Z'), ('a', 'z')])
  | "ascii" => some (.range '\x00' '\x7f')
  | "blank" => some (ranges [('\t', '\t'), (' ', ' ')])
  | "cntrl" => some (ranges [('\x00', '\x1f'), ('\x7f', '\x7f')])
  | "digit" => some (.range '0' '9')
  | "graph" => some (.range '!' '~')
  | "lower" => some (.range 'a' 'z')
  | "print" => some (.range ' ' '~')
  | "punct" => some (ranges [('!', '/'), (':', '@'), ('[', '\x60'), ('\x7b', '~')])
  | "space" => some (ranges [('\t', '\r'), (' ', ' ')])
  | "upper" => some (.range 'A' 'Z')
  | "word" => some (ranges [('0', '9'), ('A', 'Z'), ('_', '_'), ('a', 'z')])
  | "xdigit" => some (ranges [('0', '9'), ('A', 'F'), ('a', 'f')])
  | _ => none

end CharSet
end CharacterRules
