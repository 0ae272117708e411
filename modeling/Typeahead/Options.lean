import Typeahead.Failure

/-!
# Options

Named values, the way they are given to an operation.  A name that is missing is not
the same as a name whose value is null.
-/

namespace Typeahead

/-- Named values; no name occurs twice. -/
abbrev Options := List (String × Value)

namespace Options

/-- The value given under a name. -/
def get? (options : Options) (name : String) : Option Value :=
  (options.find? fun e => e.1 == name).map (·.2)

/-- The value given under a name, or a default for a missing name. -/
def getD (options : Options) (name : String) (default : Value) : Value :=
  (get? options name).getD default

/-- Whether a name is given. -/
def has (options : Options) (name : String) : Bool := options.any fun e => e.1 == name

/-- Gives a name a value: a present name keeps its place, a new one goes to the
end. -/
def set : Options → String → Value → Options
  | [], name, value => [(name, value)]
  | (n, v) :: rest, name, value =>
      if n == name then (n, value) :: rest else (n, v) :: set rest name value

/-- Options with others on top of them. -/
def override (base top : Options) : Options := top.foldl (fun acc e => set acc e.1 e.2) base

/-- Refuses names that are not allowed and the lack of required ones. -/
def require (allowed required : List String) (options : Options) : Except Failure Unit :=
  if options.all (fun e => allowed.contains e.1) && required.all (fun n => has options n) then
    .ok ()
  else .error .wrongKind

end Options

end Typeahead
