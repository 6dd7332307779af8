import CharacterRules.Diagnostic.Basic
import CharacterRules.Unicode.Width

/-!
Reports: diagnostics drawn into the text they are about. A report shows the lines at the ends of its
place and points to it from below; a place on a single line is underlined. Places count characters,
and a place that does not lie in the text is not shown.
-/

namespace CharacterRules

/-- A line of a text. -/
structure SourceLine where
  /-- How many characters precede the line. -/
  offset : Nat
  /-- How many characters the line has, with the one that ends it. -/
  length : Nat
  /-- The characters without white space at the end. -/
  text : List Char

namespace SourceLine

def isBreak (c : Char) : Bool :=
  (10 ≤ c.toNat && c.toNat ≤ 13) || c.toNat == 0x85 || c.toNat == 0x2028 || c.toNat == 0x2029

/-- The runs of characters up to the breaks, with the breaks. A carriage return and a line feed are
one break. -/
def split : List Char → List (List Char)
  | [] => []
  | ['\r'] => [['\r']]
  | '\r' :: '\n' :: rest => ['\r', '\n'] :: split rest
  | c :: rest =>
    if isBreak c then [c] :: split rest
    else
      match split rest with
      | line :: lines => (c :: line) :: lines
      | [] => [[c]]

/-- The lines that begin at an offset. -/
def place (offset : Nat) : List (List Char) → List SourceLine
  | [] => []
  | line :: lines =>
    ⟨offset, line.length, Text.dropEndWhile Unicode.isSpace line⟩ ::
      place (offset + line.length) lines

/-- The lines of a text; an empty text has one. -/
def ofText (text : String) : List SourceLine :=
  if text == "" then [⟨0, 0, []⟩] else place 0 (split text.toList)

-- As for the bytes of a text, the sum starts from the literal zero.
attribute [local instance (high)] Zero.ofOfNat0

/-- The index of the line that an offset up to the end of the text is on. -/
def indexAt? (lines : List SourceLine) (offset : Nat) : Option Nat :=
  if offset ≤ (lines.map (·.length)).sum then
    some ((lines.takeWhile (·.offset ≤ offset)).length - 1)
  else none

/-- What is shown for a character in a column: blanks for white space, up to the next stop for a
tab. -/
def cell (column : Nat) (c : Char) : List Char :=
  if c == '\t' then List.replicate (4 - column % 4) ' '
  else if Unicode.isSpace c then [' ']
  else if Unicode.width c = 0 then []
  else [c]

/-- How many columns the character in a column takes. -/
def cellWidth (line : SourceLine) (column : Nat) : Nat :=
  match line.text[column]? with
  | some '\t' => 4 - column % 4
  | some c => Unicode.width c
  | none => 1

/-- The text as it is shown. -/
def shown (line : SourceLine) : List Char :=
  line.text.zipIdx.flatMap fun (c, column) => cell column c

/-- A row below a line: `mark` gives for each character the sign at its first column and the sign at
its further ones. -/
def drawRow (line : SourceLine) (length : Nat) (mark : Nat → Char × Char) : List Char :=
  (List.range length).flatMap fun column =>
    match line.cellWidth column with
    | 0 => []
    | more + 1 => (mark column).1 :: List.replicate more (mark column).2

end SourceLine

namespace Report

/-- The parts of a report that depend on the place: its lines, and the label. -/
structure Frame where
  /-- How many digits the greatest line number has. -/
  digits : Nat
  label : String

namespace Frame

def blanks (count : Nat) : String := String.ofList (List.replicate count ' ')

/-- A line of a report without number; `bar` stands at the margin. -/
def margin (f : Frame) (bar : Char) (rest : String) : String :=
  blanks (f.digits + 2) ++ String.singleton bar ++ rest ++ "\n"

/-- A line of a report with its number. -/
def numbered (f : Frame) (index : Nat) (rest : String) : String :=
  let number := toString (index + 1)
  " " ++ blanks (f.digits - number.length) ++ number ++ " │ " ++ rest ++ "\n"

def head (f : Frame) (name : String) (line column : Nat) : String :=
  f.margin '╭' ("─[ " ++ name ++ ":" ++ toString (line + 1) ++ ":" ++ toString (column + 1) ++ " ]")
    ++ f.margin '│' ""

def foot (f : Frame) : String :=
  String.ofList (List.replicate (f.digits + 2) '─') ++ "╯\n"

/-- The part about a place on one line, which has `count` characters from the `start`-th on. An
arrow leads from the middle of the place to the label. -/
def inline (f : Frame) (index : Nat) (line : SourceLine) (start count : Nat) : String :=
  let arrow := start + count / 2
  let length := start + count + 2
  let isMarked (column : Nat) : Bool := start ≤ column && column < start + count
  let under := line.drawRow length fun column =>
    if column = arrow then if isMarked column then ('┬', '─') else ('│', ' ')
    else if isMarked column then ('─', '─')
    else (' ', ' ')
  let pointer := line.drawRow length fun column =>
    if column = arrow then ('╰', '─') else if arrow < column then ('─', '─') else (' ', ' ')
  f.numbered index (String.ofList line.shown) ++
    f.margin '│' (" " ++ String.ofList under) ++
    f.margin '│' (" " ++ String.ofList pointer ++ " " ++ f.label)

/-- The part about a place that begins and ends on different lines. -/
def multiline (f : Frame) (first : Nat) (firstLine : SourceLine) (last : Nat)
    (lastLine : SourceLine) : String :=
  let length := lastLine.length + 2
  f.numbered first ("╭─▶ " ++ String.ofList firstLine.shown) ++
    (if first + 1 < last then f.margin '┆' " ┆   " else "") ++
    f.numbered last ("├─▶ " ++ String.ofList lastLine.shown) ++
    f.margin '│' (" │   " ++ String.ofList (lastLine.drawRow length fun _ => (' ', ' '))) ++
    f.margin '│' (" ╰───" ++ String.ofList (lastLine.drawRow length fun _ => ('─', '─')) ++ " " ++
      f.label)

end Frame

/-- The part of a report about a place from `start` up to `stop` in the lines of a text; empty if
the place does not lie in the text. -/
def body (lines : List SourceLine) (name label : String) (start stop : Nat) : String :=
  let last := if stop ≤ start then start else stop - 1
  match SourceLine.indexAt? lines start, SourceLine.indexAt? lines last with
  | some i, some j =>
    match lines[i]?, lines[j]? with
    | some firstLine, some lastLine =>
      let frame : Frame := ⟨(toString (j + 1)).length, label⟩
      let column := start - firstLine.offset
      frame.head name i column ++
        (if i ≠ j then frame.multiline i firstLine j lastLine
        else if stop ≤ firstLine.offset + firstLine.length then
          frame.inline i firstLine column (stop - start)
        else frame.margin '│' " ") ++
        frame.foot
    | _, _ => ""
  | _, _ => ""

/-- The report of a diagnostic about a text with a name. -/
def ofDiagnostic (source name : String) (d : Diagnostic) : String :=
  let word := match d.severity with
    | .error => "Error"
    | .warning => "Warning"
  let size := source.utf8ByteSize
  word ++ ": " ++ d.message ++ "\n" ++
    body (SourceLine.ofText source) name (d.label.getD d.message) (min d.span.start size)
      (min d.span.stop size)

/-- The reports of diagnostics, one after another. -/
def ofDiagnostics (source name : String) (ds : List Diagnostic) : String :=
  String.join (ds.map (ofDiagnostic source name))

/-- The report of an error: the faults of a formula are shown in its text, others in one line. -/
def ofError (name : String) : ContentError → String
  | .formula text faults => ofDiagnostics text name (faults.map Diagnostic.ofFault)
  | e => "error: " ++ e.message ++ "\n"

end Report
end CharacterRules
