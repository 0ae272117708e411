/-!
# The indexing switch

Writes can be switched off.  There is a standing position, which anyone may change,
and scopes that take precedence over it: entering a scope sets the scoped position and
leaving it brings back the one from before it was entered.
-/

namespace Typeahead

/-- The positions of the switch. -/
structure Switch where
  standing : Bool
  inScope : Option Bool
  deriving DecidableEq, Repr

namespace Switch

/-- The switch at the start: on, with no scope open. -/
def initial : Switch := ⟨true, none⟩

/-- Whether writes are sent. -/
def enabled (s : Switch) : Bool :=
  match s.inScope with
  | some b => b
  | none => s.standing

/-- Changes the standing position. -/
def setStanding (b : Bool) (s : Switch) : Switch := { s with standing := b }

/-- Enters a scope. -/
def enter (b : Bool) (s : Switch) : Switch := { s with inScope := some b }

/-- Leaves a scope that was entered from a scoped position. -/
def leave (before : Option Bool) (s : Switch) : Switch := { s with inScope := before }

end Switch

/-- The switch with its named scopes, each with the scoped position from before it was
entered. -/
structure Scopes where
  switch : Switch
  entered : List (String × Option Bool)
  deriving DecidableEq, Repr

namespace Scopes

/-- No scope is open. -/
def initial : Scopes := ⟨.initial, []⟩

/-- Whether writes are sent. -/
def enabled (s : Scopes) : Bool := s.switch.enabled

/-- Changes the standing position. -/
def setStanding (b : Bool) (s : Scopes) : Scopes :=
  { s with switch := s.switch.setStanding b }

/-- Enters a scope under a name. -/
def enter (name : String) (b : Bool) (s : Scopes) : Scopes where
  switch := s.switch.enter b
  entered := (name, s.switch.inScope) :: s.entered.filter fun e => e.1 != name

/-- Leaves the scope of a name; nothing happens when it is not open.  Scopes may be
left in any order. -/
def leave (name : String) (s : Scopes) : Scopes :=
  match s.entered.find? fun e => e.1 == name with
  | none => s
  | some e =>
      { switch := s.switch.leave e.2, entered := s.entered.filter fun e => e.1 != name }

end Scopes

end Typeahead
