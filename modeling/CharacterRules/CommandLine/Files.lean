import CharacterRules.Text.Basic
import Std.Data.TreeMap

/-!
Files that commands read and write.
-/

namespace CharacterRules

/-- Why a file cannot be read or written. -/
inductive FileFault where
  | notFound
  | isDirectory
  | notDirectory
  | notText
  | other (description : String)
  deriving DecidableEq

def FileFault.message : FileFault → String
  | .notFound => "No such file or directory (os error 2)"
  | .isDirectory => "Is a directory (os error 21)"
  | .notDirectory => "Not a directory (os error 20)"
  | .notText => "stream did not contain valid UTF-8"
  | .other description => description

/-- A directory of text files, by their paths. -/
abbrev Workspace := Std.TreeMap String String

namespace Workspace

/-- What a path leads to. -/
inductive Place where
  | file (key content : String)
  | directory
  /-- Nothing yet; its directory exists. -/
  | vacant (key : String)
  | fault (f : FileFault)

/-- The parts of a path between slashes, in reverse, without those that stay in place. A part that
leads back takes one away; there is no path out of the directory. -/
def resolve (parts : List String) : Option (List String) :=
  parts.foldlM
    (fun taken part =>
      if part == "" || part == "." then some taken
      else if part == ".." then
        match taken with
        | [] => none
        | _ :: rest => some rest
      else some (part :: taken))
    []

/-- Whether a path is a directory: it is the root or leads to a file below. -/
def isDirectory (w : Workspace) (key : String) : Bool :=
  key == "" || w.keys.any (Text.startsWith · (key ++ "/"))

def parts (path : String) : List String := path.splitOn "/"

/-- Whether a file stands where a directory is needed on the way to a place. -/
def isBlocked (w : Workspace) : List String → Bool
  | [] => false
  | _ :: above => w.contains (Text.join "/" above.reverse) || w.isBlocked above

/-- What a path leads to. -/
def place (w : Workspace) (path : String) : Place :=
  match resolve (parts path) with
  | none => .directory
  | some taken =>
    let key := Text.join "/" taken.reverse
    if Text.startsWith path "/" then if key == "" then .directory else .fault .notFound
    else if w.isDirectory key then .directory
    else if w.isBlocked taken then .fault .notDirectory
    else
      match w[key]? with
      | some content =>
        if (parts path).getLast? == some "" then .fault .notDirectory else .file key content
      | none =>
        if !w.isDirectory (Text.join "/" (taken.drop 1).reverse) then .fault .notFound
        else if (parts path).getLast? == some "" then .fault .isDirectory
        else .vacant key

def read (w : Workspace) (path : String) : Except FileFault String :=
  match w.place path with
  | .file _ content => .ok content
  | .directory => .error .isDirectory
  | .vacant _ => .error .notFound
  | .fault .isDirectory => .error .notFound
  | .fault f => .error f

/-- The directory after a file is written. -/
def write (w : Workspace) (path content : String) : Except FileFault Workspace :=
  match w.place path with
  | .file key _ | .vacant key => .ok (w.insert key content)
  | .directory => .error .isDirectory
  | .fault f => .error f

end Workspace
end CharacterRules
