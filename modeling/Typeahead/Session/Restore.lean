import Typeahead.Session.State

/-!
# Taking a transaction back

What becomes of the objects when a transaction is undone.  Those that it stored, or that
still wait, are unknown again; those that it removed, or that are marked, are stored
again; a changed key is changed back.  Stored objects are expired, all of them for the
root transaction, and only the changed ones for a savepoint.
-/

namespace Typeahead

namespace Session

/-- Whether an object became known in a transaction. -/
def isIntroduced (s : Session) (t : Transaction) (o : Obj) : Bool :=
  t.stored.contains o.id || s.fresh.contains o.id

/-- Whether an object went away in a transaction. -/
def isWithdrawn (s : Session) (t : Transaction) (o : Obj) : Bool :=
  t.removed.contains o.id || s.marked.contains o.id

/-- The key that an object had before a transaction changed it. -/
def keyBefore? (t : Transaction) (o : Obj) : Option (Option Value) :=
  (t.rekeyed.find? fun e => e.1 == o.id).map (·.2)

/-- An object that a transaction made known, without it. -/
def forgotten (t : Transaction) (o : Obj) : Obj :=
  match keyBefore? t o with
  | some key => { o with standing := .detached, key := key }
  | none => { o with standing := .loose, key := none }

/-- An object that was known before a transaction, with its key and its standing from
then. -/
def returned (s : Session) (t : Transaction) (o : Obj) : Obj :=
  match keyBefore? t o with
  | some key => { o with standing := .stored, key := key }
  | none => if s.isWithdrawn t o then { o with standing := .stored } else o

/-- Whether what a stored object holds may come from a transaction. -/
def isDoubtful (t : Transaction) (nested : Bool) (o : Obj) : Bool :=
  o.standing == .stored && (!nested || o.modified || t.touched.contains o.id)

/-- An object without a transaction. -/
def restoredObject (c : Surroundings) (t : Transaction) (nested : Bool) (s : Session)
    (o : Obj) : Obj :=
  if s.isIntroduced t o then forgotten t o
  else
    let o := s.returned t o
    if isDoubtful t nested o then o.expire (c.attrs o.entity) else o

/-- The objects without a transaction. -/
def restore (c : Surroundings) (t : Transaction) (nested : Bool) (s : Session) : Session :=
  { s with
    objects := s.objects.map (restoredObject c t nested s)
    fresh := []
    marked := [] }

/-- Leaves the innermost transaction to be rolled back: its rows and objects are as
before it, but it is still open. -/
def breakInnermost (c : Surroundings) (s : Session) : Session :=
  match s.stack with
  | [] => s
  | t :: outer =>
      { restore c t (!outer.isEmpty) { s with rows := t.before } with
        stack := { t with state := .broken } :: outer }

/-- Whether a write waits for a transaction. -/
def waitsFor (id : Nat) (w : PendingWrite) : Bool := w.path.contains id

/-- Drops the writes that wait for a transaction. -/
def dropWrites (id : Nat) (s : Session) : Session :=
  { s with queue := s.queue.filter fun w => !waitsFor id w }

/-- Ends the innermost transaction.  With the root transaction all waiting writes go. -/
def pop (s : Session) : Session :=
  match s.stack with
  | [] => s
  | [_] => { s with stack := [], queue := [] }
  | _ :: outer => { s with stack := outer }

/-- Undoes the innermost transaction and drops the writes that wait for it.  One that a
failed flush left broken has been undone before, and only what happened since then is
taken back. -/
def undoInnermost (c : Surroundings) (s : Session) : Session :=
  match s.stack with
  | [] => s
  | t :: outer =>
      let nested := !outer.isEmpty
      let restored := match t.state with
        | .active => restore c t nested { s with rows := t.before }
        | _ => if s.isClean then s else restore c t nested s
      (dropWrites t.id restored).pop

end Session

end Typeahead
