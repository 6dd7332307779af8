import CharacterRules.Attributes
import CharacterRules.Json.Reader

/-!
Selections as JSON objects.
-/

namespace CharacterRules

namespace Json

def writeValue : Value → String
  | .number n => writeNumber n
  | .text s => writeString s

/-- The value of a document that is a number or a string. -/
def value? : Json → Option Value
  | .number n => some (.number n)
  | .string s => some (.text s)
  | _ => none

/-- The selection of a document: an object of numbers and strings. Of two members with one key the
later counts. -/
def selection? : Json → Option Selection
  | .object members =>
    members.foldlM
      (fun (s : Selection) (key, document) => (document.value?).map fun v => s.insert key v) {}
  | _ => none

end Json

namespace Attributes

def ofJson? (text : String) : Option Selection := (Json.ofText? text).bind Json.selection?

/-- The written members in the order of their keys. -/
def jsonMembers (a : Attributes) (separator : String) : List String :=
  a.toList.map fun (key, value) => Json.writeString key ++ separator ++ Json.writeValue value

/-- The attributes as JSON on one line. -/
def toJson (a : Attributes) : String :=
  "\x7b" ++ Text.join "," (a.jsonMembers ":") ++ "\x7d"

/-- The attributes as JSON with one indented line for each member. -/
def toJsonLines (a : Attributes) : String :=
  match a.jsonMembers ": " with
  | [] => "\x7b\x7d"
  | members => "\x7b\n  " ++ Text.join ",\n  " members ++ "\n\x7d"

end Attributes
end CharacterRules
