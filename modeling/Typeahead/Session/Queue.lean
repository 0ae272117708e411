import Typeahead.Session.Change

/-!
# The queue of writes

Changes of objects whose configuration writes on commit are queued at the end of a
flush: new objects first, then changed ones, then removed ones.  The queue is emptied
before its first write is sent, so a write that fails takes the ones behind it along.
-/

namespace Typeahead

namespace Surroundings

/-- The configuration that queues the changes of a class, if there is one. -/
def queueing? (c : Surroundings) (entity : String) : Option Searchable :=
  (c.catalog.searchable? entity).filter fun x => x.index.writesOnCommit

/-- Queues the change of an object.  An update without changes is passed over. -/
def enqueue (c : Surroundings) (action : Action) (id : Nat) : Exec Unit := do
  let o ← Exec.object id
  match c.queueing? o.entity with
  | none => return ()
  | some x =>
      if action == .update && !o.isModified then return ()
      else
        let (key, body) ← c.capture x action id
        modify fun s => { s with queue := s.queue ++ [⟨s.path, x, action, key, body⟩] }

/-- Queues the changes of a flush. -/
def collect (c : Surroundings) : Exec Unit := do
  let s ← get
  s.fresh.forM (c.enqueue .index)
  (s.dirty.map (·.id)).forM (c.enqueue .update)
  s.marked.forM (c.enqueue .delete)

/-- Empties the queue and sends what was in it. -/
def deliver (c : Surroundings) : Exec Unit := do
  let s ← get
  set { s with queue := [] }
  s.queue.forM fun w => c.send w.searchable w.action w.id w.body

/-- What follows the commit of any transaction.  While a savepoint is open, and it still is
when it has just been committed itself, the queue waits for the transaction around it. -/
def deliverAtRoot (c : Surroundings) : Exec Unit := do
  if (← get).inSavepoint then return () else c.deliver

end Surroundings

end Typeahead
