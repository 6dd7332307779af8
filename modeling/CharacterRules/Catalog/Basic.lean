import CharacterRules.Error
import CharacterRules.Json.Reader

/-!
Content catalogs: tables of named entries.
-/

namespace CharacterRules

/-- An entry whose attribute list could not be read. -/
structure Rejected where
  table : String
  name : String
  reason : String

abbrev Table := Std.TreeMap String Entry

/-- Tables of entries, with the entries that were rejected. -/
structure Catalog where
  tables : Std.TreeMap String Table := {}
  rejected : List Rejected := []

namespace Catalog

/-- A table; one that does not exist is empty. -/
def table (c : Catalog) (name : String) : Table := c.tables.getD name {}

def addTable (c : Catalog) (name : String) : Catalog :=
  { c with tables := c.tables.insertIfNew name {} }

def insert (c : Catalog) (table name : String) (e : Entry) : Catalog :=
  { c with tables := c.tables.insert table ((c.table table).insert name e) }

def insertText (c : Catalog) (table name text : String) : Except Entry.ListFault Catalog :=
  (Entry.ofText text).map (c.insert table name)

def entry? (c : Catalog) (table name : String) : Option Entry := (c.table table)[name]?

def contains (c : Catalog) (table name : String) : Bool := (c.entry? table name).isSome

def names (c : Catalog) (table : String) : List String := (c.table table).keys

def tableNames (c : Catalog) : List String := c.tables.keys

/-- Loads an entry; one that cannot be read is kept among the rejected. -/
def load (c : Catalog) (table name text : String) : Catalog :=
  match c.insertText table name text with
  | .ok c => c
  | .error fault =>
    let reason := (ContentError.malformedEntry fault).message
    { c with rejected := c.rejected ++ [⟨table, name, reason⟩] }

/-- The attribute lists of a catalog before they are read, by table and name. -/
abbrev Source := Std.TreeMap String (Std.TreeMap String String)

def loadTable (c : Catalog) (table : String) (entries : Std.TreeMap String String) : Catalog :=
  (entries.toList.foldl (fun c (name, text) => c.load table name text) c).addTable table

/-- Loads all tables, in the order of their names. -/
def ofSource (source : Source) : Catalog :=
  source.toList.foldl (fun c (table, entries) => c.loadTable table entries) {}

/-- The attribute lists of a table given as an object of strings. -/
def entriesOf? : Json → Option (Std.TreeMap String String)
  | .object members =>
    members.foldlM (fun (entries : Std.TreeMap String String) (name, document) =>
      match document with
      | .string text => some (entries.insert name text)
      | _ => none) {}
  | _ => none

/-- The attribute lists of a catalog given as an object of objects of strings. -/
def sourceOf? : Json → Option Source
  | .object members =>
    members.foldlM (fun (source : Source) (table, document) =>
      (entriesOf? document).map fun entries => source.insert table entries) {}
  | _ => none

/-- The catalog that a text holds as JSON. -/
def ofJson? (text : String) : Option Catalog :=
  ((Json.ofText? text).bind sourceOf?).map ofSource

end Catalog
end CharacterRules
