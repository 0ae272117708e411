import Typeahead.Session.Queue
import Typeahead.Session.Restore

/-!
# Flushing

A flush writes what has changed to the rows, table by table: first the rows that are
changed, then those that are inserted, and when this is done for all tables those that
are removed.  A new object with the key of one that is about to be removed takes over
its row.  Listeners hear of the changes of a table once its rows are written, and
writes are queued at the very end.  A failure undoes the innermost transaction.
-/

namespace Typeahead

/-- What a flush does to one table, by the numbers of objects: those to insert, those that take
over a row, stored ones with changes, and those to remove. -/
structure TablePlan where
  inserted : List Nat
  replacing : List Nat
  changed : List Nat
  removed : List Nat

namespace Surroundings

/-- Whether a new object has the key of a stored one. -/
def takesRowOf (c : Surroundings) (o d : Obj) : Bool :=
  c.tableName o.entity == c.tableName d.entity &&
    match d.key with
    | some key => key.same (c.ownKey o)
    | none => false

/-- What a flush does to the table of a class. -/
def planFor (c : Surroundings) (s : Session) (base : String) : TablePlan :=
  let isHere := fun o : Obj => c.catalog.baseName o.entity == base
  let pending := (s.objectsOf s.fresh).filter isHere
  let doomed := (s.objectsOf s.marked).filter isHere
  { inserted := (pending.filter fun o => !doomed.any (c.takesRowOf o)).map (·.id)
    replacing := (pending.filter fun o => doomed.any (c.takesRowOf o)).map (·.id)
    changed := (Obj.byKey (s.dirty.filter isHere)).map (·.id)
    removed := (Obj.byKey (doomed.filter fun d =>
      !pending.any fun o => c.takesRowOf o d)).map (·.id) }

/-- Whether a column that must have a value would have none. -/
def lacksValue (t : Table) (values : Options) : Bool :=
  t.requiredAttrs.any fun a => (values.getD a .null).same .null

/-- The key of a new row, numbered if it is left out. -/
def newKey (t : Table) (rows : List Row) (own : Value) : Except Failure Value :=
  match own with
  | .null =>
      if t.numbersKeys then .ok (.int (Row.nextKey rows t.name))
      else .error (.session .integrity)
  | key => .ok key

/-- Inserts the row of an object, which gets to know its key. -/
def insertRow (c : Surroundings) (id : Nat) : Exec Unit := do
  let o ← Exec.object id
  match c.catalog.table? o.entity with
  | none => return ()
  | some t =>
      let s ← get
      let key ← Exec.ofExcept (newKey t s.rows (c.ownKey o))
      let values := match t.keyColumn? with
        | some column => o.values.set column.attr key
        | none => o.values
      if lacksValue t values || (Row.find? s.rows t.name key).isSome then
        throw (.session .integrity)
      let row : Row := ⟨t.name, key, t.attrs.map fun a => (a, values.getD a .null)⟩
      set { s with rows := s.rows ++ [row] }
      Exec.put { o with values := values }

/-- Changes several attributes of the row under a key, and with them perhaps the key. -/
def changeRow (c : Surroundings) (o : Obj) (t : Table) (key : Value) (attrs : List String) :
    Exec Unit := do
  let s ← get
  let keyAttr := (t.keyColumn?.map (·.attr)).getD ""
  let now := if attrs.contains keyAttr then c.ownKey o else key
  let isTaken := !now.same key && (Row.find? s.rows t.name now).isSome
  match Row.find? s.rows t.name key with
  | none => throw (.session .staleRow)
  | some r =>
      let values := attrs.foldl (fun values a => values.set a (o.values.getD a .null)) r.values
      if lacksValue t values || now.same .null || isTaken then throw (.session .integrity)
      else set { s with rows := Row.change s.rows t.name key fun _ => ⟨t.name, now, values⟩ }

/-- Writes the changes of a stored object to its row. -/
def updateRow (c : Surroundings) (id : Nat) : Exec Unit := do
  let o ← Exec.object id
  match c.catalog.table? o.entity, o.key with
  | some t, some key =>
      if o.netChanges.isEmpty then return ()
      else
        let o ← c.load id ((t.keyColumn?.map (·.attr)).toList)
        c.changeRow o t key o.netChanges
  | _, _ => return ()

/-- Writes a new object over the row that it takes over.  Attributes that it was not
given stay as they are in the row. -/
def overwriteRow (c : Surroundings) (id : Nat) : Exec Unit := do
  let o ← Exec.object id
  match c.catalog.table? o.entity with
  | none => return ()
  | some t =>
      let attrs := o.netChanges.filter fun a => !(t.keyColumn?.any fun k => k.attr == a)
      if attrs.isEmpty then return () else c.changeRow o t (c.ownKey o) attrs

/-- Removes the row of an object; it may be gone already. -/
def removeRow (c : Surroundings) (id : Nat) : Exec Unit := do
  let o ← Exec.object id
  let keyAttrs := ((c.catalog.table? o.entity).bind (·.keyColumn?)).toList.map (·.attr)
  let o ← c.load id keyAttrs
  match o.key with
  | none => return ()
  | some key =>
      modify fun s => { s with rows := Row.remove s.rows (c.tableName o.entity) key }

/-- Writes the change of an object at once, as often as there are listeners for it.  An
update without changes is passed over. -/
def announce (c : Surroundings) (action : Action) (id : Nat) : Exec Unit := do
  let o ← Exec.object id
  match c.catalog.searchable? o.entity with
  | none => return ()
  | some x =>
      if action == .update && !o.isModified then return ()
      else (List.replicate (c.catalog.listenerCount o.entity) ()).forM fun _ => do
        let (key, body) ← c.capture x action id
        c.send x action key body

/-- Stores the new and the changed objects of a table. -/
def save (c : Surroundings) (plan : TablePlan) : Exec Unit := do
  plan.replacing.forM c.overwriteRow
  plan.changed.forM c.updateRow
  plan.inserted.forM c.insertRow
  plan.inserted.forM (c.announce .index)
  plan.replacing.forM (c.announce .update)
  plan.changed.forM (c.announce .update)

/-- Removes the marked objects of a table. -/
def remove (c : Surroundings) (plan : TablePlan) : Exec Unit := do
  plan.removed.forM c.removeRow
  plan.removed.forM (c.announce .delete)

/-- Notes that an object is stored under its key.  Another object that was there is
pushed out. -/
def keep (c : Surroundings) (s : Session) (id : Nat) : Session :=
  match s.object? id with
  | none => s
  | some o =>
      let key := c.ownKey o
      let before := o.key.filter fun k => !k.same key
      let s := match s.storedAt? c (c.tableName o.entity) key with
        | some d =>
            if d.id == id then s
            else s.modifyObject d.id fun d => { d with standing := .displaced }
        | none => s
      let s := match before with
        | some k =>
            s.modifyInnermost fun t =>
              if t.rekeyed.any fun e => e.1 == id then t
              else { t with rekeyed := t.rekeyed ++ [(id, some k)] }
        | none => s
      s.modifyObject id fun o => { o with standing := .stored, key := some key }.settle

/-- Notes what a flush has done: marked objects are removed, new and changed ones
stored. -/
def conclude (c : Surroundings) (s : Session) : Session :=
  let changed := s.dirty.map (·.id)
  let removed := s.marked.foldl (fun s id =>
    s.modifyObject id fun o => { o with standing := .removed }) s
  let kept := (s.fresh ++ changed).foldl c.keep removed
  { kept.modifyInnermost fun t =>
      { t with
        stored := t.stored ++ s.fresh
        removed := t.removed ++ s.marked
        touched := t.touched ++ changed } with
    fresh := []
    marked := [] }

/-- The work of a flush. -/
def flushWork (c : Surroundings) : Exec Unit := do
  let s ← get
  let plans := c.catalog.baseNames.map (c.planFor s)
  plans.forM c.save
  plans.forM c.remove
  c.collect
  modify c.conclude

/-- Writes all changes to the rows.  Without changes nothing happens at all. -/
def flush (c : Surroundings) : Exec Unit := do
  if (← get).isClean then return ()
  else
    modify Session.begin
    Exec.requireActive
    tryCatch c.flushWork fun e => do
      modify (Session.breakInnermost c)
      throw e

end Surroundings

end Typeahead
