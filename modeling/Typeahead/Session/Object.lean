import Typeahead.Options
import Typeahead.Schema

/-!
# Objects and rows

Rows are what the database holds, objects are what the program holds of them.  An
object remembers which of its attributes were changed and what they were before, so
that a change that is taken back is no change.  An expired object has to read its
attributes again.
-/

namespace Typeahead

/-- A row of a table, under its key. -/
structure Row where
  table : String
  key : Value
  values : Options

/-- How an object stands to the session: not known to it, waiting to be stored,
stored, removed by a flush, pushed out by another object of the same key, or let go
when the session was closed. -/
inductive Standing where
  | loose
  | pending
  | stored
  | removed
  | displaced
  | detached
  deriving DecidableEq, Repr

/-- An object of a declared class, told from all others by its number.  `changes` has the
changed attributes with their values before the change, none if there was no value in
memory. -/
structure Obj where
  id : Nat
  entity : String
  standing : Standing
  key : Option Value
  values : Options
  changes : List (String × Option Value)
  modified : Bool
  expired : Bool

namespace Row

/-- Whether a row is in a table under a key. -/
def isAt (table : String) (key : Value) (r : Row) : Bool := r.table == table && r.key.same key

/-- The row of a table under a key. -/
def find? (rows : List Row) (table : String) (key : Value) : Option Row :=
  rows.find? (isAt table key)

/-- The rows without the one under a key. -/
def remove (rows : List Row) (table : String) (key : Value) : List Row :=
  rows.filter fun r => !isAt table key r

/-- Changes the row under a key. -/
def change (rows : List Row) (table : String) (key : Value) (f : Row → Row) : List Row :=
  rows.map fun r => if isAt table key r then f r else r

/-- The next free number: one above the highest key of a table, or one. -/
def nextKey (rows : List Row) (table : String) : Int :=
  match (rows.filter fun r => r.table == table).filterMap fun r => r.key.asInt? with
  | [] => 1
  | n :: ns => ns.foldl max n + 1

end Row

namespace Obj

/-- A new object; all its values count as set. -/
def create (id : Nat) (entity : String) (values : Options) : Obj where
  id := id
  entity := entity
  standing := .loose
  key := none
  values := values
  changes := values.map fun e => (e.1, none)
  modified := true
  expired := false

/-- Whether the session still answers for an object. -/
def isAttached (o : Obj) : Bool :=
  match o.standing with
  | .pending | .stored | .removed | .displaced => true
  | .loose | .detached => false

/-- Whether a changed attribute differs from what it was. -/
def differs (o : Obj) (change : String × Option Value) : Bool :=
  match change.2, o.values.get? change.1 with
  | some before, some now => !now.same before
  | _, _ => true

/-- The attributes that differ from what they were. -/
def netChanges (o : Obj) : List String := (o.changes.filter o.differs).map (·.1)

/-- Whether any attribute differs from what it was. -/
def isModified (o : Obj) : Bool := o.modified && !o.netChanges.isEmpty

/-- Sets an attribute; the first change since the last flush keeps the value from
before. -/
def set (o : Obj) (attr : String) (v : Value) : Obj :=
  { o with
    values := o.values.set attr v
    changes := if o.changes.any fun e => e.1 == attr then o.changes
      else o.changes ++ [(attr, o.values.get? attr)]
    modified := true }

/-- Sets something that is no attribute of the class. -/
def setExtra (o : Obj) (name : String) (v : Value) : Obj :=
  { o with values := o.values.set name v }

/-- Whether an object comes before another one in the order of their keys, of numbers or
of texts. -/
def keyBefore (o p : Obj) : Bool :=
  match o.key.bind Value.asInt?, p.key.bind Value.asInt? with
  | some m, some n => m < n
  | _, _ =>
      match o.key, p.key with
      | some (.text s), some (.text t) => s < t
      | _, _ => false

/-- Puts an object in its place among objects that are in order. -/
def insertByKey (o : Obj) : List Obj → List Obj
  | [] => [o]
  | p :: rest => if o.keyBefore p then o :: p :: rest else p :: insertByKey o rest

/-- Objects in the order of their keys. -/
def byKey (objects : List Obj) : List Obj := objects.foldl (fun acc o => insertByKey o acc) []

/-- Forgets the changes, which have been stored. -/
def settle (o : Obj) : Obj := { o with changes := [], modified := false }

/-- Forgets the attributes of the class, which have to be read again. -/
def expire (attrs : List String) (o : Obj) : Obj :=
  { o with
    values := o.values.filter fun e => !attrs.contains e.1
    changes := []
    modified := false
    expired := true }

/-- Takes the missing attributes from a row. -/
def fill (attrs : List String) (r : Row) (o : Obj) : Obj :=
  { o with
    values := attrs.foldl (fun values a =>
      if values.has a then values else values.set a (r.values.getD a .null)) o.values
    expired := false }

/-- What reading the attributes gives; those of the class that have no value are
null. -/
def view (attrs : List String) (o : Obj) : Options :=
  attrs.foldl (fun values a => if values.has a then values else values.set a .null) o.values

end Obj

namespace Table

/-- The attributes of the objects of a table. -/
def attrs (t : Table) : List String := t.columns.map (·.attr)

/-- The column of the key. -/
def keyColumn? (t : Table) : Option Column := t.columns.find? (·.primaryKey)

/-- Whether the keys of a table are numbers that can be handed out. -/
def numbersKeys (t : Table) : Bool :=
  match t.keyColumn? with
  | none => false
  | some c =>
      match c.type with
      | .generic .integer | .generic .smallInteger | .generic .bigInteger => true
      | .native name => name == "INTEGER"
      | _ => false

/-- The columns, apart from the key, that must have a value. -/
def requiredAttrs (t : Table) : List String :=
  (t.columns.filter fun c => !c.nullable && !c.primaryKey).map (·.attr)

end Table

end Typeahead
