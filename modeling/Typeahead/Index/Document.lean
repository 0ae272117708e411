import Typeahead.Index.Basic

/-!
# Documents

What is written to an index for an object: its id, the time of its creation and its
searched attributes.  Times directly under an attribute are written as text.  Writes
are left out while indexing is switched off.
-/

namespace Typeahead

/-- What happens to a document. -/
inductive Action where
  | index
  | update
  | delete
  deriving DecidableEq, Repr

namespace Action

/-- All actions. -/
def all : List Action := [.index, .update, .delete]

/-- The name of an action. -/
def name : Action → String
  | .index => "index"
  | .update => "update"
  | .delete => "delete"

/-- The action of a name. -/
def read (v : Value) : Except Failure Action :=
  match all.find? fun a => v.same (.text a.name) with
  | some a => .ok a
  | none => if v.isWritable then .error (.unknownAction v) else .error .unwritable

end Action

namespace Index

/-- The attributes of a document. -/
def documentAttrs (index : Index) : List Value :=
  [.text "id", .text "created_at"] ++ index.searchAttrs

/-- A value as it is written: times become text. -/
def written : Value → Value
  | .date d => .text d.iso
  | .datetime t => .text t.iso
  | v => v

/-- One entry of a document; an attribute that an object lacks is null. -/
def documentEntry (object : Options) : Value → Except Failure (Value × Value)
  | .text name => .ok (.text name, written (object.getD name .null))
  | _ => .error .wrongKind

/-- The document of an object. -/
def document (index : Index) (object : Options) : Except Failure Value := do
  let entries ← index.documentAttrs.mapM (documentEntry object)
  return .dict (Entries.ofList entries)

/-- The id of an object's document. -/
def documentId (object : Options) : Except Failure Value :=
  match object.get? "id" with
  | some v => .ok v
  | none => .error .noAttribute

/-- The document that an action writes; a removal writes none. -/
def bodyFor (index : Index) (action : Action) (object : Options) : Except Failure Value :=
  match action with
  | .delete => .ok .null
  | _ => index.document object

/-- Writes one change, and says whether it was sent. -/
def sendAction (index : Index) (client : Client) (enabled : Bool) (backend : Backend)
    (action : Action) (id body : Value) : Exchange Bool :=
  if enabled then
    let write := match action with
      | .index => client.indexDocument backend index.name id body
      | .update => client.updateDocument backend index.name id body
      | .delete => client.deleteDocument backend index.name id
    write.andThen fun _ => Exchange.lift (.ok true)
  else
    Exchange.lift (do
      index.name.requireWritable
      id.requireWritable
      return false)

/-- Writes one change that is named by a value. -/
def send (index : Index) (client : Client) (enabled : Bool) (backend : Backend)
    (action id body : Value) : Exchange Bool :=
  match Action.read action with
  | .ok action => index.sendAction client enabled backend action id body
  | .error e => Exchange.lift (.error e)

/-- The body and the id of an object's document for an action that is named by a
value. -/
def storeParts (index : Index) (object : Options) (action : Value) :
    Except Failure (Value × Value) := do
  let body ← if action.same (.text "delete") then pure .null else index.document object
  let id ← documentId object
  return (id, body)

/-- Writes the change of an object. -/
def store (index : Index) (client : Client) (enabled : Bool) (backend : Backend)
    (object : Options) (action : Value) : Exchange Bool :=
  match index.storeParts object action with
  | .ok (id, body) => index.send client enabled backend action id body
  | .error e => Exchange.lift (.error e)

end Index

end Typeahead
