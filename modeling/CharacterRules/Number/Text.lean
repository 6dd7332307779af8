import CharacterRules.Number.Shortest

/-!
The written forms of a number: the positional form, which never has an exponent, and the
interchange form, which keeps a point or an exponent in every number.
-/

namespace CharacterRules.Number

def zeros (count : Nat) : List Char := List.replicate count '0'

/-- The digits of a decimal and the place of its point, counted from the first digit. -/
def Decimal.layout (d : Decimal) : List Char × Int :=
  let digits := Nat.toDigits 10 d.digits
  (digits, digits.length + d.exponent)

/-- A decimal without exponent mark and, if it is an integer, without point. -/
def Decimal.positional (d : Decimal) : List Char :=
  let (digits, point) := d.layout
  if point ≤ 0 then '0' :: '.' :: zeros (-point).toNat ++ digits
  else if digits.length ≤ point then digits ++ zeros (point - digits.length).toNat
  else digits.take point.toNat ++ '.' :: digits.drop point.toNat

/-- A decimal as interchange formats write it: positional with a point from `1e-5` up to `1e16`,
else with one digit before the point and an exponent. -/
def Decimal.interchange (d : Decimal) : List Char :=
  let (digits, point) := d.layout
  if digits.length ≤ point ∧ point ≤ 16 then
    digits ++ zeros (point - digits.length).toNat ++ ['.', '0']
  else if -5 < point ∧ point ≤ 16 then d.positional
  else
    let exponent := (toString (point - 1)).toList
    match digits with
    | [] => []
    | [first] => first :: 'e' :: exponent
    | first :: rest => first :: '.' :: rest ++ 'e' :: exponent

/-- The sign in front of a written number. -/
def signText (negative : Bool) : String := if negative then "-" else ""

/-- The positional text: the fewest digits that read back, a tie going up. -/
def positional : Number → String
  | .nan => "NaN"
  | .infinity negative => signText negative ++ "inf"
  | .finite negative m e _ =>
    signText negative ++
      if m = 0 then "0" else String.ofList (shortestDecimal .up m e).positional

/-- The interchange text: the fewest digits that read back, a tie going to the even digit. What is
not finite has none. -/
def interchange? : Number → Option String
  | .finite negative m e _ =>
    some (signText negative ++
      if m = 0 then "0.0" else String.ofList (shortestDecimal .even m e).interchange)
  | _ => none

/-- The integer a number stands for if it is written as one: it has no fraction and is below
`10 ^ 15` in magnitude. -/
def shortInt? (x : Number) : Option Int :=
  x.toInt?.filter fun i => i.natAbs < 10 ^ 15

/-- The text shown to readers: an integer of moderate size without sign of zero, else the
positional text. -/
def display (x : Number) : String :=
  match x.shortInt? with
  | some i => toString i
  | none => x.positional

end CharacterRules.Number
