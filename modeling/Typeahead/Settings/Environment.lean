import Typeahead.Settings.DotEnv
import Typeahead.Text.Lowercase
import Typeahead.Failure

/-!
# Variables

What settings are loaded from: the variables of the environment and those of a file.
Names do not distinguish upper and lower case, so both are kept in lower case, and of
two variables that differ in case alone the later one counts.
-/

namespace Typeahead

/-- The surroundings that settings are loaded in. -/
structure Environment where
  exported : List (String × String)
  dotEnv : Option String

/-- Variables by their names in lower case; some have no value. -/
abbrev Variables := List (String × Option String)

namespace Variables

/-- Gives a variable a value; a present one keeps its place. -/
def set : Variables → String → Option String → Variables
  | [], name, value => [(name, value)]
  | (n, v) :: rest, name, value =>
      if n == name then (n, value) :: rest else (n, v) :: set rest name value

/-- The value of a variable. -/
def get? (vars : Variables) (name : String) : Option String :=
  (vars.find? fun e => e.1 == name).bind (·.2)

/-- Variables from a list in which later ones overwrite earlier ones. -/
def ofList (entries : List (String × Option String)) : Variables :=
  entries.foldl (fun acc e => set acc e.1 e.2) []

/-- Variables by lower case names. -/
def lowered (vars : Variables) : Variables :=
  ofList (vars.map fun e => (Text.lower e.1, e.2))

end Variables

namespace Environment

/-- The variables of an origin. -/
def read (env : Environment) : SettingsOrigin → Variables
  | .environment => Variables.lowered (env.exported.map fun e => (e.1, some e.2))
  | .dotEnv =>
      match env.dotEnv with
      | none => []
      | some file =>
          Variables.lowered (Variables.ofList
            ((DotEnv.read env.exported file).map fun b => (b.name, b.value)))

end Environment

end Typeahead
