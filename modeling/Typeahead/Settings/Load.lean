import Typeahead.Settings.Group

/-!
# Loading settings

All settings are the two groups together.  A group may be given as a whole; otherwise
it is built from the variables that name it, and when there are none it is loaded as
it would be on its own.
-/

namespace Typeahead

/-- All settings. -/
structure Settings where
  autocomplete : AutocompleteSettings
  connection : ConnectionSettings
  deriving DecidableEq, Repr

namespace Settings

/-- A failure of a group inside all settings: issues and objections become issues of
the group. -/
def groupOutcome {α : Type} (group : String) : Except Failure α → Except Failure (Check.Outcome α)
  | .ok a => .ok (.ok a)
  | .error (.invalid issues) => .ok (.error (issues.map (Issue.under [.name group])))
  | .error failure =>
      match failure.objection? with
      | some reason => .ok (.error [.ofField group (.refused reason)])
      | none => .error failure

/-- The names and values of a mapping. -/
def namedValues (entries : Entries) : Options :=
  entries.filterMap fun e => match e.1 with
    | .text s => some (s, e.2)
    | _ => none

/-- A group: as given, or built from what the variables say about it. -/
def groupValue {α : Type} (group model : String) (load : Options → Except Failure α)
    (given : Option α) (found : Option Value) : Except Failure (Check.Outcome α) :=
  match given, found with
  | some a, _ => .ok (.ok a)
  | none, none => do
      let a ← load []
      return .ok a
  | none, some (.dict entries) => groupOutcome group (load (namedValues entries))
  | none, some _ => .ok (.error [.ofField group (.modelType model)])

/-- Loads all settings.  The variables are read in full, whatever is given. -/
def load (env : Environment) (autocomplete : Option AutocompleteSettings)
    (connection : Option ConnectionSettings) : Except Failure Settings := do
  let outer := env.read .environment
  let file := env.read .dotEnv
  let a ← groupFrom .environment outer AutocompleteSettings.group AutocompleteSettings.fields
  let c ← groupFrom .environment outer ConnectionSettings.group ConnectionSettings.fields
  let a' ← groupFrom .dotEnv file AutocompleteSettings.group AutocompleteSettings.fields
  let c' ← groupFrom .dotEnv file ConnectionSettings.group ConnectionSettings.fields
  let autocomplete ← groupValue AutocompleteSettings.group "AutocompleteSettings"
    (AutocompleteSettings.load env) autocomplete (overlay a' a)
  let connection ← groupValue ConnectionSettings.group "OpenSearchSettings"
    (ConnectionSettings.load env) connection (overlay c' c)
  match autocomplete, connection with
  | .ok autocomplete, .ok connection => return ⟨autocomplete, connection⟩
  | a, c => .error (.invalid (Check.issues a ++ Check.issues c))

/-- Settings of which one or both groups are given by name. -/
def ofOptions (env : Environment) (autocomplete connection : Option Options) :
    Except Failure Settings := do
  let a ← match autocomplete with
    | some options => some <$> AutocompleteSettings.load env options
    | none => pure none
  let c ← match connection with
    | some options => some <$> ConnectionSettings.load env options
    | none => pure none
  load env a c

end Settings

end Typeahead
