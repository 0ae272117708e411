import Typeahead.Client.Backend
import Typeahead.FieldTypes
import Typeahead.Search.Page
import Typeahead.Settings.Load

/-!
# The client

The client writes documents and runs compiled searches.  It hands every reply of the
backend on, and every fault as it is.  A hit becomes the document it was made from,
with the number of the backend for an id if the document has none, and its score.
-/

namespace Typeahead

/-- A client for one host. -/
structure Client where
  host : Value
  settings : Settings

namespace Client

/-- Takes note of a write: its id, its index and the result have to be texts. -/
def noteWrite (index id reply : Value) : Except Failure Value := do
  id.requireWritable
  index.requireWritable
  match reply with
  | .dict entries => do
      (Entries.get entries "result").requireWritable
      return reply
  | _ => .error .noAttribute

/-- Stores a document. -/
def indexDocument (c : Client) (backend : Backend) (index id body : Value) : Exchange Value :=
  (Exchange.call backend (.index index id body c.settings.connection.refresh)).andThen
    fun reply => Exchange.lift (noteWrite index id reply)

/-- Changes a part of a stored document. -/
def updateDocument (c : Client) (backend : Backend) (index id body : Value) : Exchange Value :=
  (Exchange.call backend (.update index id (.dict [(.text "doc", body)])
    c.settings.connection.refresh)).andThen fun reply => Exchange.lift (noteWrite index id reply)

/-- Removes a stored document. -/
def deleteDocument (c : Client) (backend : Backend) (index id : Value) : Exchange Value :=
  (Exchange.call backend (.delete index id c.settings.connection.refresh)).andThen
    fun reply => Exchange.lift (noteWrite index id reply)

/-- The value of a name that has to be there. -/
def member (name : String) : Value → Except Failure Value
  | .dict entries =>
      match Entries.lookup entries (.text name) with
      | some v => .ok v
      | none => .error (.missingKey (.text name))
  | _ => .error .wrongKind

/-- The number of all hits, plain or inside a mapping. -/
def readTotal (reply : Value) : Except Failure Value := do
  let hits ← member "hits" reply
  match ← member "total" hits with
  | .dict entries => member "value" (.dict entries)
  | total => return total

/-- The document of a hit. -/
def readHit : Value → Except Failure Value
  | .dict hit => do
      let source ← FieldTypes.entriesOf ((Entries.get hit "_source").orElse (.dict []))
      let named := if Entries.has source (.text "id") then source
        else Entries.insert source (.text "id") (Entries.get hit "_id")
      return .dict (Entries.insert named (.text "score") (Entries.get hit "_score"))
  | _ => .error .noAttribute

/-- The documents of all hits. -/
def readHits (reply : Value) : Except Failure (List Value) := do
  let hits ← member "hits" reply
  match (← member "hits" hits).members? with
  | some items => items.mapM readHit
  | none => .error .wrongKind

/-- A number as a binary fraction. -/
def binary : Value → Except Failure Binary64
  | .float x => .ok x
  | v =>
      match v.asInt? with
      | some n =>
          match Binary64.ofInt? n with
          | some x => .ok x
          | none => .error .beyondRange
      | none => .error .wrongKind

/-- Whether a value is a number. -/
def isNumber : Value → Bool
  | .float _ => true
  | v => v.asInt?.isSome

/-- The page that starts at a position, for a page size that is not zero. -/
def pageNumber (position size : Value) : Except Failure Value :=
  match position.asInt?, size.asInt? with
  | some p, some s => .ok (.int (Int.fdiv p s + 1))
  | _, _ =>
      if isNumber position && isNumber size then do
        let p ← binary position
        let s ← binary size
        return .float (p.floorDiv s).succ
      else .error .wrongKind

/-- The page size and the page number in a query body. -/
def readWindow (body : Value) : Except Failure (Value × Value) :=
  match body with
  | .dict entries => do
      let size := (Entries.get entries "size").orElse (.int 50)
      let page ← pageNumber ((Entries.lookup entries (.text "from")).getD (.int 0)) size
      return (size, page)
  | _ => .error .noAttribute

/-- The page that a reply and a query body describe. -/
def readPage (index body reply : Value) : Except Failure Page := do
  let total ← readTotal reply
  let hits ← readHits reply
  let (size, page) ← readWindow body
  index.requireWritable
  total.requireWritable
  match Page.ofOptions [("total", total), ("hits", .list hits), ("page", page),
      ("per_page", size)] with
  | .ok p => return p
  | .error es => .error (.invalid es)

/-- Runs a compiled search. -/
def search (_ : Client) (backend : Backend) (index body : Value) : Exchange Page :=
  (Exchange.call backend (.search index body)).andThen
    fun reply => Exchange.lift (readPage index body reply)

end Client

end Typeahead
