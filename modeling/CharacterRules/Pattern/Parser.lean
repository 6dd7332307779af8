import CharacterRules.Pattern.Matcher
import CharacterRules.Unicode.Alphanumeric

/-!
The written form of patterns. A reader consumes the text from left to right and keeps the open
groups on a stack; every step consumes a character, so the length of the text bounds the steps.
-/

namespace CharacterRules.Regex

/-- The modes that a pattern can switch. -/
structure Modes where
  anyCase : Bool := false
  multiLine : Bool := false
  dotAll : Bool := false
  spaced : Bool := false
  deriving DecidableEq

/-- Drops white space and comments where a mode makes them meaningless. -/
def skipSpace (modes : Modes) (text : List Char) : List Char :=
  if modes.spaced then go text.length text else text
where
  go : Nat → List Char → List Char
    | 0, rest => rest
    | fuel + 1, rest =>
      match rest with
      | '#' :: comment => go fuel (comment.dropWhile (· != '\n'))
      | c :: more => if Unicode.isSpace c then go fuel more else rest
      | [] => []

/-- The set of one character in the given modes. -/
def literal (modes : Modes) (c : Char) : CharSet :=
  if modes.anyCase then .anyCase (.single c) else .single c

/-- What an escape stands for. -/
inductive Escape where
  | literal (c : Char)
  | named (s : CharSet)
  | anchor (a : Anchor)

def hexDigit? (c : Char) : Option Nat :=
  if '0' ≤ c ∧ c ≤ '9' then some (c.toNat - '0'.toNat)
  else if 'a' ≤ c ∧ c ≤ 'f' then some (c.toNat - 'a'.toNat + 10)
  else if 'A' ≤ c ∧ c ≤ 'F' then some (c.toNat - 'A'.toNat + 10)
  else none

/-- The number written by hexadecimal digits, if there are any and no other characters. -/
def hexNumber? (digits : List Char) : Option Nat :=
  if digits.isEmpty then none
  else digits.foldlM (fun value c => (hexDigit? c).map (value * 16 + ·)) 0

def scalar? (code : Nat) : Option Char :=
  if code.isValidChar then some (Char.ofNat code) else none

/-- A character written by its code point: in braces, or with `width` digits. -/
def readHex? (width : Nat) : List Char → Option (Char × List Char)
  | '\x7b' :: rest =>
    match rest.dropWhile (· != '\x7d') with
    | _ :: after => do
      let code ← hexNumber? (rest.takeWhile (· != '\x7d'))
      return (← scalar? code, after)
    | [] => none
  | rest => do
    guard (width ≤ rest.length)
    let code ← hexNumber? (rest.take width)
    return (← scalar? code, rest.drop width)

/-- Characters with a meaning in patterns, which an escape makes plain. -/
def isMeta (c : Char) : Bool :=
  "\\.+*?()|[]^$#&-~\x7b\x7d".toList.contains c

/-- Whether an escape of the character is the character itself. -/
def isEscapable (c : Char) : Bool :=
  isMeta c || (c.toNat < 128 && !(c.isAlphanum || c == '<' || c == '>'))

/-- A word boundary of a special kind, named in braces. -/
def readBoundary? (rest : List Char) : Anchor × List Char :=
  match rest with
  | '\x7b' :: more =>
    match String.ofList (more.takeWhile (· != '\x7d')), more.dropWhile (· != '\x7d') with
    | "start", _ :: after => (.wordStart, after)
    | "end", _ :: after => (.wordEnd, after)
    | "start-half", _ :: after => (.wordStartHalf, after)
    | "end-half", _ :: after => (.wordEndHalf, after)
    | _, _ => (.wordBoundary, rest)
  | _ => (.wordBoundary, rest)

/-- Reads what follows a backslash. -/
def readEscape? : List Char → Option (Escape × List Char)
  | [] => none
  | c :: rest =>
    match c with
    | 'x' => (readHex? 2 rest).map fun (c, rest) => (.literal c, rest)
    | 'u' => (readHex? 4 rest).map fun (c, rest) => (.literal c, rest)
    | 'U' => (readHex? 8 rest).map fun (c, rest) => (.literal c, rest)
    | 'd' => some (.named (.named .digit), rest)
    | 'D' => some (.named (.complement (.named .digit)), rest)
    | 's' => some (.named (.named .space), rest)
    | 'S' => some (.named (.complement (.named .space)), rest)
    | 'w' => some (.named (.named .word), rest)
    | 'W' => some (.named (.complement (.named .word)), rest)
    | 'a' => some (.literal '\x07', rest)
    | 'f' => some (.literal '\x0c', rest)
    | 't' => some (.literal '\t', rest)
    | 'n' => some (.literal '\n', rest)
    | 'r' => some (.literal '\r', rest)
    | 'v' => some (.literal '\x0b', rest)
    | 'A' => some (.anchor .textStart, rest)
    | 'z' => some (.anchor .textEnd, rest)
    | 'b' => let (a, rest) := readBoundary? rest; some (.anchor a, rest)
    | 'B' => some (.anchor .notWordBoundary, rest)
    | '<' => some (.anchor .wordStart, rest)
    | '>' => some (.anchor .wordEnd, rest)
    | c => if isEscapable c then some (.literal c, rest) else none

/-- One character or named class inside brackets. -/
def readClassAtom? : List Char → Option (Escape × List Char)
  | [] => none
  | '\\' :: rest => readEscape? rest
  | c :: rest => some (.literal c, rest)

/-- One member of a bracketed class: a character, a named class or a range. -/
def readClassItem? (modes : Modes) (text : List Char) : Option (CharSet × List Char) := do
  let (first, rest) ← readClassAtom? text
  let rest := skipSpace modes rest
  let alone : Option (CharSet × List Char) :=
    match first with
    | .literal c => some (.single c, rest)
    | .named s => some (s, rest)
    | .anchor _ => none
  match rest with
  | [] => none
  | '-' :: more =>
    match skipSpace modes more with
    | ']' :: _ | '-' :: _ => alone
    | [] => none
    | more =>
      let (last, rest) ← readClassAtom? more
      match first, last with
      | .literal low, .literal high => if low ≤ high then some (.range low high, rest) else none
      | _, _ => none
  | _ => alone

/-- A class of ASCII characters named between colons, inside brackets. -/
def readAsciiClass? (text : List Char) : Option (CharSet × List Char) := do
  let text ← match text with
    | '[' :: ':' :: rest => some rest
    | _ => none
  let (negated, text) := match text with
    | '^' :: rest => (true, rest)
    | rest => (false, rest)
  let members ← CharSet.ascii? (String.ofList (text.takeWhile (· != ':')))
  match text.dropWhile (· != ':') with
  | ':' :: ']' :: rest => some (.negatedIf negated members, rest)
  | _ => none

/-- The operations between the parts of a bracketed class. -/
inductive ClassOperation where
  | intersection
  | difference
  | exclusive

/-- Combines the part in front of an operation with the part behind it. -/
def ClassOperation.apply (modes : Modes) (pending : Option (CharSet × ClassOperation))
    (right : CharSet) : CharSet :=
  let cases (s : CharSet) : CharSet := if modes.anyCase then .anyCase s else s
  match pending with
  | none => right
  | some (left, .intersection) => .intersection (cases left) (cases right)
  | some (left, .difference) => .difference (cases left) (cases right)
  | some (left, .exclusive) => .exclusive (cases left) (cases right)

/-- The beginning of a bracketed class: whether it is negated, and the hyphens or the closing
bracket that stand for themselves there. -/
def readClassStart (modes : Modes) (text : List Char) : Bool × CharSet × List Char :=
  let (negated, text) := match skipSpace modes text with
    | '^' :: rest => (true, skipSpace modes rest)
    | rest => (false, rest)
  match text with
  | '-' :: rest => (negated, .single '-', rest.dropWhile (· == '-'))
  | ']' :: rest => (negated, .single ']', rest)
  | rest => (negated, .empty, rest)

/-- Reads a bracketed class behind its opening bracket. -/
def readClass? (modes : Modes) : Nat → List Char → Option (CharSet × List Char)
  | 0, _ => none
  | fuel + 1, text =>
    let (negated, start, text) := readClassStart modes text
    readMembers fuel negated none start text
where
  /-- Reads members up to the closing bracket; `pending` is the part in front of an operation. -/
  readMembers : Nat → Bool → Option (CharSet × ClassOperation) → CharSet → List Char →
      Option (CharSet × List Char)
    | 0, _, _, _, _ => none
    | fuel + 1, negated, pending, members, text =>
      let operation (kind : ClassOperation) (rest : List Char) :=
        readMembers fuel negated (some (ClassOperation.apply modes pending members, kind)) .empty
          rest
      match skipSpace modes text with
      | [] => none
      | ']' :: rest =>
        let members := ClassOperation.apply modes pending members
        let members := if modes.anyCase then .anyCase members else members
        some (.negatedIf negated members, rest)
      | '&' :: '&' :: rest => operation .intersection rest
      | '-' :: '-' :: rest => operation .difference rest
      | '~' :: '~' :: rest => operation .exclusive rest
      | text@('[' :: rest) =>
        match readAsciiClass? text with
        | some (inner, rest) => readMembers fuel negated pending (.union members inner) rest
        | none => do
          let (innerNegated, start, rest) := readClassStart modes rest
          let (inner, rest) ← readMembers fuel innerNegated none start rest
          readMembers fuel negated pending (.union members inner) rest
      | text => do
        let (member, rest) ← readClassItem? modes text
        readMembers fuel negated pending (.union members member) rest

/-- A repetition count that fits in 32 bits, with white space around it. -/
def readCount? (text : List Char) : Option (Nat × List Char) :=
  let text := text.dropWhile Unicode.isSpace
  let digits := text.takeWhile Char.isDigit
  let value := digits.foldl (fun value c => value * 10 + (c.toNat - '0'.toNat)) 0
  if digits.isEmpty || 2 ^ 32 ≤ value then none
  else some (value, (text.dropWhile Char.isDigit).dropWhile Unicode.isSpace)

/-- Reads the bounds of a counted repetition behind the opening brace. -/
def readBounds? (modes : Modes) (text : List Char) :
    Option (Nat × Option Nat × List Char) := do
  let (least, rest) ← readCount? (skipSpace modes text)
  match rest with
  | '\x7d' :: rest => some (least, some least, rest)
  | ',' :: rest =>
    match skipSpace modes rest with
    | '\x7d' :: rest => some (least, none, rest)
    | rest =>
      let (most, rest) ← readCount? rest
      match rest with
      | '\x7d' :: rest => if least ≤ most then some (least, some most, rest) else none
      | _ => none
  | _ => none

/-- Reads mode letters up to a colon or a closing parenthesis: the modes, whether any letter was
read, and the text from the end mark on. -/
def readModes? : Nat → Modes → Bool → List Char → List Char →
    Option (Modes × Bool × List Char)
  | 0, _, _, _, _ => none
  | _, _, _, _, [] => none
  | fuel + 1, modes, value, seen, c :: rest =>
    let next (modes : Modes) :=
      if seen.contains c then none else readModes? fuel modes value (c :: seen) rest
    match c with
    | ')' | ':' =>
      if seen.head? == some '-' then none else some (modes, !seen.isEmpty, c :: rest)
    | '-' => if seen.contains '-' then none else readModes? fuel modes false ('-' :: seen) rest
    | 'i' => next { modes with anyCase := value }
    | 'm' => next { modes with multiLine := value }
    | 's' => next { modes with dotAll := value }
    | 'x' => next { modes with spaced := value }
    | 'U' | 'u' | 'R' => next modes
    | _ => none

/-- Whether a character may stand in the name of a group. -/
def isNameChar (first : Bool) (c : Char) : Bool :=
  c == '_' ||
    if first then Unicode.alphanumeric.contains c && !Unicode.decimalDigit.contains c
    else c == '.' || c == '[' || c == ']' || Unicode.alphanumeric.contains c

/-- Reads the name of a group behind its opening angle bracket. -/
def readName? (names : List (List Char)) (text : List Char) :
    Option (List (List Char) × List Char) :=
  let name := text.takeWhile (· != '>')
  match name, text.dropWhile (· != '>') with
  | first :: more, '>' :: rest =>
    if isNameChar true first && more.all (isNameChar false) && !names.contains name then
      some (name :: names, rest)
    else none
  | _, _ => none

/-- A group under construction: its finished alternatives, and the items of the current one, latest
first. An item that only switches modes is empty. -/
structure Frame where
  modes : Modes
  alternatives : List Regex
  items : List (Option Regex)

namespace Frame

def new (modes : Modes) : Frame := ⟨modes, [], []⟩

def push (frame : Frame) (r : Regex) : Frame := { frame with items := some r :: frame.items }

def current (frame : Frame) : Regex :=
  match frame.items.filterMap id with
  | [] => .empty
  | last :: before => before.foldl (fun after r => .sequence r after) last

/-- Ends the current alternative. -/
def endAlternative (frame : Frame) : Frame :=
  { frame with alternatives := frame.current :: frame.alternatives, items := [] }

/-- The pattern of the whole group. -/
def regex (frame : Frame) : Regex :=
  frame.alternatives.foldl (fun after r => .choice r after) frame.current

/-- Repeats the latest item, if there is one that can be repeated. -/
def repeatLast? (frame : Frame) (least : Nat) (most : Option Nat) : Option Frame :=
  match frame.items with
  | some r :: before => some { frame with items := some (.repetition r least most) :: before }
  | _ => none

end Frame

/-- Drops the mark that makes a repetition prefer fewer, which does not change what matches. -/
def dropLazyMark : List Char → List Char
  | '?' :: rest => rest
  | rest => rest

/-- What opens behind a parenthesis. -/
inductive GroupStart where
  | group (modes : Modes)
  | modes (modes : Modes)

/-- Reads what follows an opening parenthesis. -/
def readGroupStart? (modes : Modes) (names : List (List Char)) (text : List Char) :
    Option (GroupStart × List (List Char) × List Char) :=
  match skipSpace modes text with
  | '?' :: '=' :: _ | '?' :: '!' :: _ | '?' :: '<' :: '=' :: _ | '?' :: '<' :: '!' :: _ => none
  | '?' :: 'P' :: '<' :: rest | '?' :: '<' :: rest =>
    (readName? names rest).map fun (names, rest) => (.group modes, names, rest)
  | '?' :: rest => do
    let (inner, any, rest) ← readModes? (rest.length + 1) modes true [] rest
    match rest with
    | ')' :: rest => if any then some (.modes inner, names, rest) else none
    | _ :: rest => some (.group inner, names, rest)
    | [] => none
  | rest => some (.group modes, names, rest)

/-- Reads a pattern to its end, given the modes, the innermost open group and those around it. -/
def readAll? : Nat → Modes → Frame → List Frame → List (List Char) → List Char → Option Regex
  | 0, _, _, _, _, _ => none
  | fuel + 1, modes, frame, stack, names, text =>
    let item (r : Regex) (rest : List Char) :=
      readAll? fuel modes (frame.push r) stack names rest
    let repeated (least : Nat) (most : Option Nat) (rest : List Char) := do
      let frame ← frame.repeatLast? least most
      readAll? fuel modes frame stack names (dropLazyMark rest)
    match skipSpace modes text with
    | [] => if stack.isEmpty then some frame.regex else none
    | '(' :: rest => do
      let (start, names, rest) ← readGroupStart? modes names rest
      match start with
      | .group inner => readAll? fuel inner (.new modes) (frame :: stack) names rest
      | .modes inner =>
        readAll? fuel inner { frame with items := none :: frame.items } stack names rest
    | ')' :: rest =>
      match stack with
      | [] => none
      | outer :: stack =>
        readAll? fuel frame.modes (outer.push frame.regex) stack names rest
    | '|' :: rest => readAll? fuel modes frame.endAlternative stack names rest
    | '[' :: rest => do
      let (members, rest) ← readClass? modes (rest.length + 1) rest
      item (.set members) rest
    | '*' :: rest => repeated 0 none rest
    | '+' :: rest => repeated 1 none rest
    | '?' :: rest => repeated 0 (some 1) rest
    | '\x7b' :: rest => do
      let (least, most, rest) ← readBounds? modes rest
      repeated least most (skipSpace modes rest)
    | '\\' :: rest => do
      let (escape, rest) ← readEscape? rest
      match escape with
      | .literal c => item (.set (literal modes c)) rest
      | .named s => item (.set s) rest
      | .anchor a => item (.anchor a) rest
    | '.' :: rest =>
      item (.set (.complement (if modes.dotAll then .empty else .single '\n'))) rest
    | '^' :: rest => item (.anchor (if modes.multiLine then .lineStart else .textStart)) rest
    | '$' :: rest => item (.anchor (if modes.multiLine then .lineEnd else .textEnd)) rest
    | c :: rest => item (.set (literal modes c)) rest

/-- Reads the written form of a pattern. -/
def ofText? (text : String) : Option Regex :=
  let characters := text.toList
  readAll? (characters.length + 1) {} (.new {}) [] [] characters

end CharacterRules.Regex
