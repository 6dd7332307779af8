import CharacterRules.Value
import Std.Data.TreeMap

/-!
Attribute sheets: the raw choices of a character, and the attributes computed from them. Both map
keys to values in the order of the keys.
-/

namespace CharacterRules

/-- Keys with their values, in the order of the keys. -/
abbrev Attributes := Std.TreeMap String Value

/-- The raw choices of a character. -/
abbrev Selection := Attributes

/-- The computed attributes of a character. -/
abbrev Snapshot := Attributes

namespace Attributes

/-- The number under a key; zero if the key is absent or not numeric. -/
def number (a : Attributes) (key : String) : Number := numberOrZero a[key]?

/-- The keys that begin with `start`, found by a scan that begins at `start` and ends at the first
other key. -/
def keysFrom (a : Attributes) (start : String) : List String :=
  (a.keys.dropWhile (· < start)).takeWhile (Text.startsWith · start)

def update (a : Attributes) (key : String) : Option Value → Attributes
  | some value => a.insert key value
  | none => a.erase key

end Attributes

/-- The groups of keys that report unmet requirements. -/
def factSections : List String := ["sanityNotes.", "validationNotes."]

/-- Whether a key reports an unmet requirement. -/
def isFactKey (key : String) : Bool := factSections.any (Text.startsWith key)

namespace Attributes

/-- The facts that are violated: those whose value counts as true. -/
def violations (a : Attributes) : List String :=
  (a.toList.filter fun entry => isFactKey entry.1 && entry.2.isTruthy).map (·.1)

end Attributes
end CharacterRules
