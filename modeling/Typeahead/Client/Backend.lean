import Typeahead.Failure

/-!
# The search backend

What is known of the backend: the calls it receives, in order, and its reply to each.
The reply may depend on how many calls went before.  An exchange is a computation that
talks to the backend; calls that were made stay made when it fails.
-/

namespace Typeahead

/-- A call to the backend. -/
inductive Call where
  | index (target id body : Value) (refresh : Bool)
  | update (target id body : Value) (refresh : Bool)
  | delete (target id : Value) (refresh : Bool)
  | search (target body : Value)

namespace Call

/-- The name of a call. -/
def name : Call → String
  | .index .. => "index"
  | .update .. => "update"
  | .delete .. => "delete"
  | .search .. => "search"

/-- The arguments of a call, by name. -/
def arguments : Call → List (String × Value)
  | .index target id body refresh =>
      [("index", target), ("id", id), ("body", body), ("refresh", .bool refresh)]
  | .update target id body refresh =>
      [("index", target), ("id", id), ("body", body), ("refresh", .bool refresh)]
  | .delete target id refresh => [("index", target), ("id", id), ("refresh", .bool refresh)]
  | .search target body => [("index", target), ("body", body)]

end Call

/-- The reply to a call, by the number of calls before it. -/
abbrev Backend := Nat → Except BackendFault Value

/-- A computation that talks to the backend: from the calls so far to an outcome and
the calls after it. -/
abbrev Exchange (α : Type) := List Call → Except Failure α × List Call

namespace Exchange

/-- Makes a call and takes the reply. -/
def call (backend : Backend) (c : Call) : Exchange Value := fun sent =>
  match backend sent.length with
  | .ok reply => (.ok reply, sent ++ [c])
  | .error fault => (.error (.backend fault), sent ++ [c])

/-- Goes on with the outcome of an exchange, if there is one. -/
def andThen {α β : Type} (x : Exchange α) (f : α → Exchange β) : Exchange β := fun sent =>
  match x sent with
  | (.ok a, sent) => f a sent
  | (.error e, sent) => (.error e, sent)

/-- An outcome without any call. -/
def lift {α : Type} (r : Except Failure α) : Exchange α := fun sent => (r, sent)

end Exchange

end Typeahead
