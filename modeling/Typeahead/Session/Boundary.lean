import Typeahead.Session.Flush

/-!
# Transaction boundaries

Savepoints are opened inside the innermost transaction.  Releasing one hands its
changes to the transaction around it, rolling back to one undoes it, and either ends the
savepoints inside it.  A commit releases all savepoints and flushes, and then it settles:
it makes the rows last and sends the queued writes.  When a write fails, the root
transaction is stuck until the session is closed.
-/

namespace Typeahead

namespace Session

/-- Hands what the innermost transaction did to the one around it. -/
def mergeInnermost (s : Session) : Session :=
  match s.stack with
  | t :: outer :: rest =>
      let merged := { outer with
        stored := outer.stored ++ t.stored
        removed := outer.removed ++ t.removed
        touched := outer.touched ++ t.touched
        rekeyed := t.rekeyed ++ outer.rekeyed }
      { s with stack := merged :: rest }
  | _ => s

/-- The transaction of a savepoint and those inside it, the innermost first. -/
def inside (s : Session) (id : Nat) : List Transaction := s.stack.takeWhile fun t => t.id != id

/-- Ends the savepoints inside one. -/
def dropInside (id : Nat) (s : Session) : Session :=
  { s with stack := s.stack.dropWhile fun t => t.id != id }

/-- Undoes all transactions, the innermost first. -/
def undoAll (c : Surroundings) (s : Session) : Session :=
  s.stack.foldl (fun s _ => s.undoInnermost c) s

/-- An object that a closed session lets go. -/
def released (o : Obj) : Obj :=
  match o.standing with
  | .stored => { o with standing := .detached }
  | .pending => { o with standing := .loose }
  | _ => o

/-- The rows that are left when all transactions end without a commit. -/
def lastingRows (s : Session) : List Row :=
  match s.stack.getLast? with
  | none => s.rows
  | some root => if root.state == .committed then s.rows else root.before

/-- Lets all objects go and ends all transactions without a commit. -/
def close (s : Session) : Session :=
  { s with
    objects := s.objects.map released
    fresh := []
    marked := []
    rows := s.lastingRows
    stack := []
    queue := [] }

end Session

namespace Surroundings

/-- The transaction of a savepoint that was opened under a name. -/
def savepoint (name : String) : Exec Nat := do
  match (← get).savepoints.find? fun e => e.1 == name with
  | some e => return e.2
  | none => throw (.missingKey (.text name))

/-- Flushes in a transaction that can go on. -/
def proceed (c : Surroundings) : Exec Unit := do
  Exec.requireActive
  c.flush

/-- Opens a savepoint under a name.  What came before it is flushed outside of it. -/
def beginNested (c : Surroundings) (name : String) : Exec Unit := do
  modify Session.begin
  c.proceed
  modify fun s => { s.push with savepoints := (name, s.created) :: s.savepoints }

/-- Releases the innermost savepoint, which is a commit of its own; the root transaction is
not released. -/
def releaseInnermost (c : Surroundings) : Exec Unit := do
  c.proceed
  if (← get).inSavepoint then
    c.deliverAtRoot
    modify Session.mergeInnermost

/-- Releases a savepoint and those inside it. -/
def release (c : Surroundings) (name : String) : Exec Unit := do
  let id ← savepoint name
  let s ← get
  match s.stack.find? fun t => t.id == id with
  | none => throw (.session .transactionClosed)
  | some t =>
      if t.state == .broken then throw (.session .pendingRollback)
      else
        (s.inside id).forM fun _ => c.releaseInnermost
        c.releaseInnermost

/-- Rolls back to a savepoint. -/
def rollbackTo (c : Surroundings) (name : String) : Exec Unit := do
  let id ← savepoint name
  if (← get).path.contains id then
    modify fun s => (s.dropInside id).undoInnermost c
  else throw (.session .transactionClosed)

/-- Leaves the block of a savepoint because of a failure.  A savepoint that a failed flush
left broken has been undone already and just ends; any other one is rolled back. -/
def leave (c : Surroundings) (name : String) : Exec Unit := do
  let id ← savepoint name
  match (← get).stack.find? fun t => t.id == id with
  | none => return ()
  | some t =>
      if t.state == .broken then modify fun s => (s.dropInside id).pop
      else c.rollbackTo name

/-- The first part of a commit: savepoints are released and everything is flushed. -/
def prepare (c : Surroundings) : Exec Unit := do
  modify Session.begin
  (← get).stack.dropLast.forM fun _ => c.releaseInnermost
  c.proceed

/-- The second part of a commit: the rows are made last and the writes are sent. -/
def settle (c : Surroundings) : Exec Unit := do
  modify fun s => s.modifyInnermost fun t => { t with state := .committed }
  c.deliverAtRoot
  modify Session.pop

/-- Commits the root transaction and everything in it. -/
def commit (c : Surroundings) : Exec Unit := do
  c.prepare
  c.settle

/-- Rolls everything back. -/
def rollback (c : Surroundings) : Exec Unit := do
  match (← get).stack with
  | [] => return ()
  | t :: _ =>
      if t.state == .committed then throw (.session .invalidRequest)
      else modify (Session.undoAll c)

end Surroundings

end Typeahead
