import Typeahead.Index.Document
import Typeahead.Index.Search

/-!
# Declared classes

The classes whose objects a session keeps.  A class may extend another one and is then
stored in its table; it uses the search configuration declared last on itself, or else
that of the nearest class above it.  A configuration that writes while flushing also
leaves a listener on its class, one for a class at most, and listeners of a class hear
of the objects of all classes below it.
-/

namespace Typeahead

/-- A search configuration with the client that it writes through. -/
structure Searchable where
  index : Index
  client : Client

/-- A declared class with the search configurations declared on it, in order. -/
structure Entity where
  model : Model
  parent : Option String
  searchables : List Searchable

/-- The declared classes, the latest first. -/
abbrev Catalog := List Entity

namespace Catalog

/-- A class, the class that it extends, and so on upwards.  A class extends only what
was declared before it. -/
def lineage : Catalog → String → List Entity
  | [], _ => []
  | e :: earlier, name =>
      if e.model.name == name then
        e :: (match e.parent with
          | some p => lineage earlier p
          | none => [])
      else lineage earlier name

/-- The table of a class. -/
def table? (c : Catalog) (name : String) : Option Table :=
  match lineage c name with
  | e :: _ => e.model.table
  | [] => none

/-- The model of a class that extends another one: it has the table of that class with
its own columns besides. -/
def extended (c : Catalog) (model : Model) (parent : Option String) : Model :=
  match parent.bind (table? c) with
  | some t =>
      let own := (model.table.map (·.columns)).getD []
      { model with table := some { t with columns := t.columns ++ own } }
  | none => model

/-- The search configuration that the objects of a class use. -/
def searchable? (c : Catalog) (name : String) : Option Searchable :=
  (lineage c name).findSome? fun e => e.searchables.getLast?

/-- Whether a class has a listener for flushes. -/
def hasListener (e : Entity) : Bool :=
  e.searchables.any fun s => !s.index.writesOnCommit

/-- The number of listeners that hear of a flushed object of a class. -/
def listenerCount (c : Catalog) (name : String) : Nat :=
  ((lineage c name).filter hasListener).length

/-- The class at the top of a lineage. -/
def baseName (c : Catalog) (name : String) : String :=
  match (lineage c name).getLast? with
  | some e => e.model.name
  | none => name

/-- Puts a name in its place among sorted names. -/
def insertName (name : String) : List String → List String
  | [] => [name]
  | n :: rest => if name < n then name :: n :: rest else n :: insertName name rest

/-- The classes at the top of their lineages, by name.  Each stands for a table, and a
flush goes through the tables in this order. -/
def baseNames (c : Catalog) : List String :=
  (c.filter fun e => e.parent.isNone).foldr (fun e names => insertName e.model.name names) []

end Catalog

end Typeahead
