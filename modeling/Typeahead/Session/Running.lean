import Typeahead.Session.Command
import Typeahead.Switch

/-!
# Running programs

A program works with a session and with the indexing switch.  A write is sent or left
out by the position of the switch at the moment of the instruction that sends it.
-/

namespace Typeahead

/-- One instruction of a program. -/
inductive Instruction where
  | session (command : Command)
  | setStanding (enabled : Bool)
  | enter (name : String) (enabled : Bool)
  | leave (name : String)

/-- A session in use, with the switch. -/
structure Running where
  session : Session
  scopes : Scopes

namespace Running

/-- Nothing has happened yet. -/
def initial : Running := ⟨.empty, .initial⟩

/-- What a command may look at. -/
def surroundings (catalog : Catalog) (backend : Backend) (r : Running) : Surroundings :=
  ⟨catalog, backend, r.scopes.enabled⟩

/-- Carries out one instruction. -/
def step (catalog : Catalog) (backend : Backend) (r : Running) :
    Instruction → Except Failure (Option Page) × Running
  | .session command =>
      let (outcome, s) := (r.surroundings catalog backend).perform command r.session
      (outcome, { r with session := s })
  | .setStanding b => (.ok none, { r with scopes := r.scopes.setStanding b })
  | .enter name b => (.ok none, { r with scopes := r.scopes.enter name b })
  | .leave name => (.ok none, { r with scopes := r.scopes.leave name })

/-- Carries out a program; a failed instruction does not stop the later ones. -/
def run (catalog : Catalog) (backend : Backend) (program : List Instruction) (r : Running) :
    Running :=
  program.foldl (fun r i => (r.step catalog backend i).2) r

end Running

end Typeahead
