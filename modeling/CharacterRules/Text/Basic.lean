import CharacterRules.Unicode.Space

/-!
Operations on text that the readers share: trimming, searching and measuring. Positions in a text
are counted in the bytes of its UTF-8 form.
-/

namespace CharacterRules.Text

-- Sums of naturals start from the literal zero, also next to an algebraic hierarchy.
attribute [local instance (high)] Zero.ofOfNat0

/-- The count of UTF-8 bytes of a run of characters. -/
def byteLength (text : List Char) : Nat := (text.map Char.utf8Size).sum

/-- The characters without the trailing ones that `drop` accepts. -/
def dropEndWhile (drop : Char → Bool) (text : List Char) : List Char :=
  (text.reverse.dropWhile drop).reverse

/-- The characters without white space at either end. -/
def trimChars (text : List Char) : List Char :=
  dropEndWhile Unicode.isSpace (text.dropWhile Unicode.isSpace)

def trim (text : String) : String := String.ofList (trimChars text.toList)

/-- What follows `start` if the characters begin with it. -/
def dropStart? (start text : List Char) : Option (List Char) :=
  match start, text with
  | [], rest => some rest
  | _ :: _, [] => none
  | a :: start, b :: rest => if a = b then dropStart? start rest else none

/-- What precedes `tail` if the characters end with it. -/
def dropEnd? (tail text : List Char) : Option (List Char) :=
  (dropStart? tail.reverse text.reverse).map List.reverse

def startsWith (text start : String) : Bool := (dropStart? start.toList text.toList).isSome

/-- What follows `start` in a text that begins with it. -/
def afterStart? (text start : String) : Option String :=
  (dropStart? start.toList text.toList).map String.ofList

def occursIn (part : List Char) : List Char → Bool
  | [] => part.isEmpty
  | c :: rest => (dropStart? part (c :: rest)).isSome || occursIn part rest

/-- The texts with `separator` between neighbours. -/
def join (separator : String) : List String → String
  | [] => ""
  | [text] => text
  | text :: rest => text ++ separator ++ join separator rest

/-- The characters of a text with some of them escaped by a backslash. -/
def escapeChars (escaped : Char → Bool) (text : List Char) : List Char :=
  text.flatMap fun c => if escaped c then ['\\', c] else [c]

end CharacterRules.Text
