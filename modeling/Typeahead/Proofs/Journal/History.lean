import Typeahead.Proofs.Session.Boundaries
import Typeahead.Session.Running

/-!
# Running programs with a journal

The boundaries of transactions leave no trace in a session once they are passed.  A journal notes
them beside a run: which changes every flush wrote, and which fate every transaction met.  What is
noted of a command follows from the command and the session before it, `Surroundings.events`.  The
session after it is not looked at, and the run is the plain one, `Journal.run_running`.
-/

namespace Typeahead

/-- What becomes of a transaction.  A failed flush makes it broken, and a broken one may be
left, which ends it and nothing else. -/
inductive Fate where
  | broken
  | released
  | undone
  | left
  | committed
  deriving DecidableEq, Repr

/-- An entry of a journal: the changes that a flush wrote, those that a flush captured
before it failed, or the fate of a transaction. -/
inductive Event where
  | flushed (writes : List PendingWrite)
  | captured (writes : List PendingWrite)
  | met (fate : Fate) (id : Nat)

namespace Event

/-- The writes of a flush, if it succeeded. -/
def flushes : Event → List PendingWrite
  | .flushed ws => ws
  | _ => []

/-- The writes that were captured by a flush, whether it succeeded or not. -/
def captures : Event → List PendingWrite
  | .flushed ws => ws
  | .captured ws => ws
  | .met .. => []

/-- The transaction that met a fate. -/
def metBy? (fate : Fate) : Event → Option Nat
  | .met f id => if f = fate then some id else none
  | _ => none

end Event

/-- The events of a run, in their order. -/
abbrev History := List Event

namespace History

/-- The changes of all flushes that succeeded. -/
def flushes (h : History) : List PendingWrite := h.flatMap Event.flushes

/-- The changes that all flushes captured. -/
def captures (h : History) : List PendingWrite := h.flatMap Event.captures

/-- Several transactions meet one fate. -/
def fates (fate : Fate) (ids : List Nat) : History := ids.map (.met fate)

/-- The transactions that met a fate. -/
def met (h : History) (fate : Fate) : List Nat := h.filterMap (Event.metBy? fate)

end History

namespace Session

/-- The open transaction that goes by a name. -/
def openAs? (s : Session) (name : String) : Option Nat :=
  (s.savepoint? name).filter fun id => id ∈ s.path

/-- The open transactions from the innermost one up to a given one. -/
def upTo (s : Session) (id : Nat) : List Nat := s.path.takeWhile (fun i => i != id) ++ [id]

end Session

namespace Surroundings

variable (c : Surroundings)

/-- What a flush in an active transaction captures, and what comes next if it succeeds.  A flush
that fails breaks the innermost transaction. -/
def flushEvents (s : Session) (next : History) : History :=
  if s.isActive then
    match c.flush s with
    | (.ok _, t) => .flushed (c.written s t) :: next
    | (.error _, t) =>
        .captured (t.queue.drop s.queue.length) :: History.fates .broken s.path.head?.toList
  else []

/-- What a command does to the transactions of a session. -/
def events (s : Session) : Command → History
  | .flush => if s.isClean then [] else c.flushEvents s.begin []
  | .beginNested _ => c.flushEvents s.begin []
  | .release name =>
      match s.openAs? name with
      | none => []
      | some id => c.flushEvents s (History.fates .released (s.upTo id))
  | .commit =>
      c.flushEvents s.begin (History.fates .released s.begin.path.dropLast ++
        History.fates .committed s.begin.path.getLast?.toList)
  | .rollbackTo name =>
      match s.openAs? name with
      | none => []
      | some id => History.fates .undone (s.upTo id)
  | .leave name =>
      match s.openAs? name with
      | none => []
      | some id =>
          if (id, .broken) ∈ s.outline then History.fates .left [id]
          else History.fates .undone (s.upTo id)
  | .rollback =>
      match s.outline with
      | (_, .committed) :: _ => []
      | _ => History.fates .undone s.path
  | .close =>
      History.fates .undone ((s.outline.filter fun e => e.2 != .committed).map Prod.fst)
  | _ => []

end Surroundings

/-- What an instruction does to the transactions. -/
def Running.events (catalog : Catalog) (backend : Backend) (r : Running) : Instruction → History
  | .session command => (r.surroundings catalog backend).events r.session command
  | _ => []

/-- A run with its journal. -/
structure Journal where
  running : Running
  history : History

namespace Journal

/-- Nothing has happened yet. -/
def initial : Journal := ⟨.initial, []⟩

/-- Carries out one instruction and notes what it does to the transactions. -/
def step (catalog : Catalog) (backend : Backend) (j : Journal) (i : Instruction) :
    Except Failure (Option Page) × Journal :=
  let (outcome, r) := j.running.step catalog backend i
  (outcome, ⟨r, j.history ++ j.running.events catalog backend i⟩)

/-- Carries out a program with the journal. -/
def run (catalog : Catalog) (backend : Backend) (program : List Instruction) (j : Journal) :
    Journal :=
  program.foldl (fun j i => (j.step catalog backend i).2) j

variable (catalog : Catalog) (backend : Backend)

/-- A run with a journal is the plain run besides. -/
theorem run_running (program : List Instruction) (j : Journal) :
    (j.run catalog backend program).running = j.running.run catalog backend program := by
  induction program generalizing j with
  | nil => rfl
  | cons i program ih => exact ih (j.step catalog backend i).2

end Journal

end Typeahead
