import CharacterRules.Text.Basic
import CharacterRules.Unicode.Width

/-!
Tables of text with ruled cells.
-/

namespace CharacterRules

/-- A table: a row of titles above other rows. -/
structure TextTable where
  titles : List String
  rows : List (List String)

namespace TextTable

/-- The lines of a cell. -/
def cellLines : List Char → List (List Char)
  | [] => [[]]
  | c :: rest =>
    if c == '\n' then [] :: cellLines rest
    else
      match cellLines rest with
      | line :: lines => (c :: line) :: lines
      | [] => [[c]]

/-- How many columns of text a cell needs. -/
def cellWidth (cell : String) : Nat :=
  ((cellLines cell.toList).map Unicode.textWidth).foldl max 0

/-- The larger width of each column. -/
def widen : List Nat → List Nat → List Nat
  | a :: as, b :: bs => max a b :: widen as bs
  | [], bs => bs
  | as, [] => as

def widths (t : TextTable) : List Nat :=
  t.rows.foldl (fun widths row => widen widths (row.map cellWidth)) (t.titles.map cellWidth)

/-- A ruled line. -/
def rule (left line cross right : Char) (widths : List Nat) : String :=
  String.singleton left ++
    Text.join (String.singleton cross)
      (widths.map fun w => String.ofList (List.replicate (w + 2) line)) ++
    String.singleton right

/-- A line of a cell with blanks up to its width. -/
def padded (width : Nat) (line : List Char) : String :=
  " " ++ String.ofList (line ++ List.replicate (width - Unicode.textWidth line) ' ') ++ " "

def rowLines (widths : List Nat) (row : List String) : List String :=
  let cells := row.map fun cell => cellLines cell.toList
  let height := (cells.map List.length).foldl max 0
  (List.range height).map fun i =>
    "|" ++ Text.join "|" ((widths.zip cells).map fun (w, lines) => padded w (lines.getD i [])) ++ "|"

/-- The lines of rows with rules between them. -/
def ruledRows (widths : List Nat) : List (List String) → List String
  | [] => []
  | [row] => rowLines widths row
  | row :: rest => rowLines widths row ++ rule '|' '-' '+' '|' widths :: ruledRows widths rest

def lines (t : TextTable) : List String :=
  let widths := t.widths
  [rule '+' '-' '+' '+' widths] ++ rowLines widths t.titles ++ [rule '+' '=' '=' '+' widths] ++
    ruledRows widths t.rows ++ [rule '+' '-' '+' '+' widths]

end TextTable
end CharacterRules
