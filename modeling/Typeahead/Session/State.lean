import Typeahead.Session.Catalog
import Typeahead.Session.Object

/-!
# The state of a session

A session holds objects and the rows behind them, a stack of transactions, and the
queue of document writes that wait for the outermost commit.  The bottom of the stack
is the root transaction, the others are savepoints.  Each transaction remembers the
rows from its beginning and which objects it stored, removed and touched.  A queued
write remembers the transactions that were open around the flush it comes from.
-/

namespace Typeahead

/-- Whether a transaction can go on: it can, it has to be rolled back after a failed
flush, or it is stuck after its rows were committed. -/
inductive TransactionState where
  | active
  | broken
  | committed
  deriving DecidableEq, Repr

/-- A root transaction or a savepoint. -/
structure Transaction where
  id : Nat
  state : TransactionState
  before : List Row
  stored : List Nat
  removed : List Nat
  touched : List Nat
  rekeyed : List (Nat × Option Value)

/-- A document write that waits for the commit.  `path` has the transactions around
it, the innermost first and the root last. -/
structure PendingWrite where
  path : List Nat
  searchable : Searchable
  action : Action
  id : Value
  body : Value

/-- The state of a session.  `names` says which object a program means by a name, and
`savepoints` which transaction; the latest use of a name counts. -/
structure Session where
  objects : List Obj
  names : List (String × Nat)
  fresh : List Nat
  marked : List Nat
  stack : List Transaction
  savepoints : List (String × Nat)
  created : Nat
  rows : List Row
  queue : List PendingWrite
  sent : List Call

/-- What the steps of a session may look at: the declared classes, the backend, and
whether writes are sent. -/
structure Surroundings where
  catalog : Catalog
  backend : Backend
  enabled : Bool

/-- A computation that changes a session and may fail half-way. -/
abbrev Exec (α : Type) := ExceptT Failure (StateM Session) α

namespace Session

/-- A session on an empty database. -/
def empty : Session := ⟨[], [], [], [], [], [], 0, [], [], []⟩

/-- The object of a number. -/
def object? (s : Session) (id : Nat) : Option Obj := s.objects.find? fun o => o.id == id

/-- Changes the object of a number. -/
def modifyObject (s : Session) (id : Nat) (f : Obj → Obj) : Session :=
  { s with objects := s.objects.map fun o => if o.id == id then f o else o }

/-- The objects of several numbers, in their order. -/
def objectsOf (s : Session) (ids : List Nat) : List Obj := ids.filterMap s.object?

/-- The stored objects with changes that are not about to be removed. -/
def dirty (s : Session) : List Obj :=
  s.objects.filter fun o =>
    o.standing == .stored && o.modified && !s.marked.contains o.id

/-- Whether a flush has nothing to do. -/
def isClean (s : Session) : Bool :=
  s.fresh.isEmpty && s.marked.isEmpty &&
    !s.objects.any fun o => o.standing == .stored && o.modified

/-- The open transactions, the innermost first. -/
def path (s : Session) : List Nat := s.stack.map (·.id)

/-- Whether a root transaction is in progress. -/
def inTransaction (s : Session) : Bool := !s.stack.isEmpty

/-- Whether a savepoint is open. -/
def inSavepoint (s : Session) : Bool := !s.stack.tail.isEmpty

/-- Changes the innermost transaction. -/
def modifyInnermost (s : Session) (f : Transaction → Transaction) : Session :=
  match s.stack with
  | [] => s
  | t :: rest => { s with stack := f t :: rest }

/-- Opens a transaction inside the innermost one. -/
def push (s : Session) : Session :=
  { s with
    stack := ⟨s.created, .active, s.rows, [], [], [], []⟩ :: s.stack
    created := s.created + 1 }

/-- Opens a root transaction unless there is one. -/
def begin (s : Session) : Session := if s.inTransaction then s else s.push

end Session

namespace Exec

/-- The object of a number, which has to be known. -/
def object (id : Nat) : Exec Obj := do
  match (← get).object? id with
  | some o => return o
  | none => throw (.missingKey (.int id))

/-- The number of the object that a program means by a name. -/
def named (name : String) : Exec Nat := do
  match (← get).names.find? fun e => e.1 == name with
  | some e => return e.2
  | none => throw (.missingKey (.text name))

/-- Replaces the object of its number. -/
def put (o : Obj) : Exec Unit := modify fun s => s.modifyObject o.id fun _ => o

/-- Refuses to go on in a transaction that is not active. -/
def requireActive : Exec Unit := do
  match (← get).stack with
  | [] => return ()
  | t :: _ =>
      match t.state with
      | .active => return ()
      | .broken => throw (.session .pendingRollback)
      | .committed => throw (.session .invalidRequest)

/-- Talks to the backend. -/
def exchange {α : Type} (x : Exchange α) : Exec α := do
  let s ← get
  let (outcome, sent) := x s.sent
  set { s with sent := sent }
  match outcome with
  | .ok a => return a
  | .error e => throw e

/-- An outcome that does not touch the session. -/
def ofExcept {α : Type} : Except Failure α → Exec α
  | .ok a => return a
  | .error e => throw e

end Exec

namespace Surroundings

/-- The attributes of a class. -/
def attrs (c : Surroundings) (entity : String) : List String :=
  ((c.catalog.table? entity).map (·.attrs)).getD []

/-- The name of the table of a class. -/
def tableName (c : Surroundings) (entity : String) : String :=
  ((c.catalog.table? entity).map (·.name)).getD ""

/-- The key that an object's own values give. -/
def ownKey (c : Surroundings) (o : Obj) : Value :=
  match (c.catalog.table? o.entity).bind (·.keyColumn?) with
  | some column => o.values.getD column.attr .null
  | none => .null

end Surroundings

namespace Session

/-- The stored object of a table under a key. -/
def storedAt? (c : Surroundings) (s : Session) (table : String) (key : Value) : Option Obj :=
  s.objects.find? fun o => o.standing == .stored && c.tableName o.entity == table &&
    match o.key with
    | some k => k.same key
    | none => false

end Session

end Typeahead
