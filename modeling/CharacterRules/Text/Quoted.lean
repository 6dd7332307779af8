import CharacterRules.Unicode.Invisible

/-!
Quoted text in messages. Double quotes surround it, and characters that a reader could not see are
written as escapes.
-/

namespace CharacterRules.Text

/-- The escape of one character, or the character itself if it shows. -/
def showChar (c : Char) : List Char :=
  if c = '"' then ['\\', '"']
  else if c = '\\' then ['\\', '\\']
  else if c = '\n' then ['\\', 'n']
  else if c = '\r' then ['\\', 'r']
  else if c = '\t' then ['\\', 't']
  else if c.toNat = 0 then ['\\', '0']
  else if 32 ≤ c.toNat ∧ c.toNat < 127 then [c]
  else if Unicode.invisible.contains c then
    ['\\', 'u', '\x7b'] ++ Nat.toDigits 16 c.toNat ++ ['\x7d']
  else [c]

/-- A text in double quotes as messages show it. -/
def quote (text : String) : String :=
  String.ofList ('"' :: text.toList.flatMap showChar ++ ['"'])

end CharacterRules.Text
