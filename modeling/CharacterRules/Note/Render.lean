import CharacterRules.Formula.Parser
import CharacterRules.Note.Clause

/-!
The text of notes for a character: references are replaced by the values behind them.
-/

namespace CharacterRules.Note

/-- The text of an attribute, or a question mark if it is absent. -/
def shown (v : Option Value) : String := (v.map Value.display).getD "?"

/-- The text of a placeholder: its computed value, or that of its expression. -/
def placeholderText (sheet : Attributes) (key : String) (number : Nat) (expression : List Char) :
    String :=
  match sheet[partKey key number]? with
  | some v => v.display
  | none =>
    match Formula.parse (String.ofList expression) with
    | .ok e => shown (e.eval ⟨none, sheet⟩)
    | .error _ => "?"

/-- Replaces the references in a text; `own` is the value of the note and `next` the number of the
next placeholder. -/
def renderFrom (sheet : Attributes) (key : String) (own : Value) (next : Nat) :
    List Char → List Char
  | [] => []
  | [c] => [c]
  | c :: d :: rest =>
    if c != '%' then c :: renderFrom sheet key own next (d :: rest)
    else if d == '%' then '%' :: renderFrom sheet key own next rest
    else if d == 'V' then own.display.toList ++ renderFrom sheet key own next rest
    else if '1' ≤ d && d ≤ '9' then
      (shown sheet[key ++ "." ++ String.singleton d]?).toList ++
        renderFrom sheet key own next rest
    else if d == '\x7b' then
      if rest.contains '\x7d' then
        (placeholderText sheet key next (rest.takeWhile (· != '\x7d'))).toList ++
          renderFrom sheet key own (next + 1) ((rest.dropWhile (· != '\x7d')).drop 1)
      else '%' :: renderFrom sheet key own next (d :: rest)
    else '%' :: renderFrom sheet key own next (d :: rest)
termination_by text => text.length
decreasing_by
  all_goals simp only [List.length_cons, List.length_drop]
  all_goals try omega
  have := (List.dropWhile_suffix (· != '\x7d') (l := rest)).length_le
  omega

/-- The text of a note for a character, if the note is active. -/
def render (text key : String) (sheet : Attributes) : Option String :=
  sheet[key]?.map fun own =>
    String.ofList (renderFrom sheet key own (firstPlaceholder text.toList) text.toList)

end CharacterRules.Note
