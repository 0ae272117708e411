import Typeahead.Session.Boundary

/-!
# Commands

What a program asks of a session.  Each command that touches an object of the session
opens a root transaction if there is none.
-/

namespace Typeahead

/-- What a program asks of a session. -/
inductive Command where
  | add (object entity : String) (values : Options)
  | readd (object : String)
  | set (object attr : String) (value : Value)
  | delete (object : String)
  | flush
  | commit
  | rollback
  | close
  | beginNested (name : String)
  | release (name : String)
  | rollbackTo (name : String)
  | leave (name : String)
  | search (entity : String) (text : Value) (options : Options)

namespace Surroundings

/-- Whether another stored object has the key of an object. -/
def isPlaceTaken (c : Surroundings) (s : Session) (o : Obj) : Bool :=
  match o.key with
  | some key =>
      match s.storedAt? c (c.tableName o.entity) key with
      | some d => d.id != o.id
      | none => false
  | none => false

/-- Makes an object of a class that waits to be stored. -/
def add (c : Surroundings) (object entity : String) (values : Options) : Exec Unit := do
  match c.catalog.lineage entity with
  | [] => throw (.missingKey (.text entity))
  | e :: _ =>
      match e.model.table with
      | none => throw (if values.isEmpty then .session .unmapped else .wrongKind)
      | some t =>
          if values.all fun v => t.attrs.contains v.1 then
            modify fun s =>
              let id := s.objects.length
              let o := { Obj.create id entity values with standing := .pending }
              { s.begin with
                objects := s.objects ++ [o]
                names := (object, id) :: s.names
                fresh := s.fresh ++ [id] }
          else throw .wrongKind

/-- Takes an object with a key among the stored ones. -/
def attach (c : Surroundings) (o : Obj) : Exec Unit := do
  modify Session.begin
  if c.isPlaceTaken (← get) o then throw (.session .invalidRequest)
  else Exec.put { o with standing := .stored }

/-- Adds a known object. -/
def readd (c : Surroundings) (object : String) : Exec Unit := do
  let id ← Exec.named object
  let o ← Exec.object id
  match o.standing with
  | .loose =>
      modify fun s =>
        { s.begin with
          objects := (s.modifyObject id fun o => { o with standing := .pending }).objects
          fresh := s.fresh ++ [id] }
  | .pending => return ()
  | .removed => throw (.session .invalidRequest)
  | .stored =>
      modify fun s => { s.begin with marked := s.marked.filter fun m => m != id }
  | .displaced => c.attach o
  | .detached => c.attach o

/-- Marks an object to be removed by the next flush, once.  It must have a key; one that
was removed before is taken back for it. -/
def delete (c : Surroundings) (object : String) : Exec Unit := do
  let id ← Exec.named object
  let o ← Exec.object id
  if o.key.isNone then throw (.session .invalidRequest)
  else if (← get).marked.contains id then return ()
  else
    c.attach o
    modify fun s => { s with marked := s.marked ++ [id] }

/-- Sets an attribute of an object.  A key is read before it is changed. -/
def set (c : Surroundings) (object attr : String) (value : Value) : Exec Unit := do
  let id ← Exec.named object
  let o ← Exec.object id
  match (c.catalog.table? o.entity).bind fun t => t.attribute? attr with
  | none => Exec.put (o.setExtra attr value)
  | some column =>
      let o ← c.load id (if column.primaryKey then [attr] else [])
      if o.isAttached then modify Session.begin
      Exec.put (o.set attr value)

/-- Searches the index of a class. -/
def search (c : Surroundings) (entity : String) (text : Value) (options : Options) :
    Exec Page :=
  match c.catalog.searchable? entity with
  | none => throw .noAttribute
  | some x => Exec.exchange (x.index.search x.client c.backend text options)

/-- Carries a command out. -/
def perform (c : Surroundings) : Command → Exec (Option Page)
  | .add object entity values => do c.add object entity values; return none
  | .readd object => do c.readd object; return none
  | .set object attr value => do c.set object attr value; return none
  | .delete object => do c.delete object; return none
  | .flush => do c.flush; return none
  | .commit => do c.commit; return none
  | .rollback => do c.rollback; return none
  | .close => do modify Session.close; return none
  | .beginNested name => do c.beginNested name; return none
  | .release name => do c.release name; return none
  | .rollbackTo name => do c.rollbackTo name; return none
  | .leave name => do c.leave name; return none
  | .search entity text options => do return some (← c.search entity text options)

end Surroundings

end Typeahead
