import Typeahead.Session.State

/-!
# Changes as documents

What a write says of a changed object: its id and its document.  Attributes of an
expired object are read from its row when they are needed.
-/

namespace Typeahead

namespace Surroundings

/-- The attributes that the write of a change looks at. -/
def neededAttrs (x : Searchable) : Action → List String
  | .delete => ["id"]
  | _ => x.index.documentAttrs.filterMap Value.text?

/-- Whether an object has to be read again for one of several attributes. -/
def isStale (c : Surroundings) (o : Obj) (needed : List String) : Bool :=
  o.expired && needed.any fun a => (c.attrs o.entity).contains a && !o.values.has a

/-- Reads an expired object again from its row. -/
def refresh (c : Surroundings) (o : Obj) : Exec Unit := do
  if !o.isAttached then throw (.session .detached)
  modify Session.begin
  Exec.requireActive
  match o.key with
  | none => return ()
  | some key =>
      match Row.find? (← get).rows (c.tableName o.entity) key with
      | some r => Exec.put (o.fill (c.attrs o.entity) r)
      | none => throw (.session .rowGone)

/-- The object of a number, with several attributes at hand. -/
def load (c : Surroundings) (id : Nat) (needed : List String) : Exec Obj := do
  let o ← Exec.object id
  if c.isStale o needed then
    c.refresh o
    Exec.object id
  else return o

/-- The document id and the body of the write of a change.  The body is made first. -/
def capture (c : Surroundings) (x : Searchable) (action : Action) (id : Nat) :
    Exec (Value × Value) := do
  let o ← c.load id (neededAttrs x action)
  let view := o.view (c.attrs o.entity)
  let body ← Exec.ofExcept (x.index.bodyFor action view)
  let key ← Exec.ofExcept (Index.documentId view)
  return (key, body)

/-- Sends a write. -/
def send (c : Surroundings) (x : Searchable) (action : Action) (key body : Value) :
    Exec Unit := do
  let _ ← Exec.exchange (x.index.sendAction x.client c.enabled c.backend action key body)
  return ()

end Surroundings

end Typeahead
