import Typeahead.Settings.Environment
import Typeahead.Json
import Typeahead.Options

/-!
# Settings from variables

Settings come in groups of fields.  A variable for a field is named by the group and
the field with two underscores between them; a whole group may also be given by one
variable that holds a mapping, on top of which its fields are then put.  List fields
are written as structured text.
-/

namespace Typeahead

/-- How the text of a variable becomes the value of a field: as it is, or as
structured text.  A lenient list field keeps text that is no structured text. -/
inductive VariableForm where
  | plain
  | list (lenient : Bool)
  deriving DecidableEq, Repr

/-- A field of a group. -/
structure SettingsField where
  name : String
  form : VariableForm
  deriving DecidableEq, Repr

namespace Settings

/-- What separates the parts of a variable's name. -/
def delimiter : String := "__"

/-- Cuts a name at each delimiter. -/
def nameParts : List Char → List (List Char)
  | [] => [[]]
  | '_' :: '_' :: cs => [] :: nameParts cs
  | c :: cs =>
      match nameParts cs with
      | [] => [[c]]
      | p :: ps => (c :: p) :: ps

/-- The parts of a variable's name behind a start that ends in a delimiter. -/
def partsBehind? (start name : String) : Option (List String) :=
  if start.toList.isPrefixOf name.toList then
    some ((nameParts (name.toList.drop start.length)).map String.ofList)
  else none

/-- Puts a value into nested mappings.  A value that is no mapping and stands in the
way stays. -/
def insertAt : List String → Value → Entries → Entries
  | [], _, entries => entries
  | [last], v, entries => Entries.insert entries (.text last) v
  | key :: rest, v, entries =>
      match (Entries.lookup entries (.text key)).getD (.dict []) with
      | .dict inner => Entries.insert entries (.text key) (.dict (insertAt rest v inner))
      | _ => entries

/-- A mapping with another one on top of it; mappings inside both are merged. -/
def merge (base : Entries) : Entries → Entries
  | [] => base
  | (k, .dict inner) :: rest =>
      match Entries.lookup base k with
      | some (.dict under) => merge (Entries.insert base k (.dict (merge under inner))) rest
      | _ => merge (Entries.insert base k (.dict inner)) rest
  | (k, v) :: rest => merge (Entries.insert base k v) rest

/-- The structured text of a field. -/
def readList (origin : SettingsOrigin) (field : String) (lenient : Bool) (s : String) :
    Except Failure Value :=
  match Json.read? s with
  | some v => .ok v
  | none => if lenient then .ok (.text s) else .error (.unparsedSetting field origin)

/-- The form of a field; an unknown one is plain. -/
def formOf (fields : List SettingsField) (name : String) : VariableForm :=
  match fields.find? fun f => f.name == name with
  | some f => f.form
  | none => .plain

/-- The value that the variable of a field gives inside its group.  Only text that is
not empty is read as structured text. -/
def innerValue (origin : SettingsOrigin) (group : String) (fields : List SettingsField)
    (path : List String) (value : Option String) : Except Failure Value :=
  match path, value with
  | _, none => .ok .null
  | [name], some s =>
      match formOf fields name with
      | .list lenient => if s = "" then .ok (.text s) else readList origin group lenient s
      | .plain => .ok (.text s)
  | _, some s => .ok (.text s)

/-- The mapping that the variables behind a start give. -/
def nested (read : List String → Option String → Except Failure Value) (start : String) :
    Variables → Entries → Except Failure Entries
  | [], acc => .ok acc
  | (name, value) :: rest, acc =>
      match partsBehind? start name with
      | none => nested read start rest acc
      | some path => do
          let v ← read path value
          nested read start rest (insertAt path v acc)

/-- Null for what is not set. -/
def setValue : Value → Option Value
  | .null => none
  | v => some v

/-- The value that an origin gives a field of a group read on its own. -/
def fieldFrom (origin : SettingsOrigin) (vars : Variables) (group : String)
    (field : SettingsField) : Except Failure (Option Value) :=
  let name := group ++ delimiter ++ field.name
  match field.form, Variables.get? vars name with
  | .plain, value => .ok (value.map .text)
  | .list lenient, some s => do
      let v ← readList origin field.name lenient s
      return setValue v
  | .list _, none => do
      let inner ← nested (fun _ v => .ok ((v.map Value.text).getD .null)) (name ++ delimiter)
        vars []
      return if inner.isEmpty then none else some (.dict inner)

/-- Brings the keys of a mapping into the case of the fields. -/
def matchNames (fields : List SettingsField) (entries : Entries) : Entries :=
  Entries.ofList (entries.map fun e =>
    match e.1 with
    | .text s =>
        match fields.find? fun f => f.name == Text.lower s with
        | some f => (.text f.name, e.2)
        | none => e
    | _ => e)

/-- The value that an origin gives a whole group. -/
def groupFrom (origin : SettingsOrigin) (vars : Variables) (group : String)
    (fields : List SettingsField) : Except Failure (Option Value) := do
  match Variables.get? vars group with
  | some s =>
      match ← readList origin group false s with
      | .dict entries => do
          let inner ← nested (innerValue origin group fields) (group ++ delimiter) vars []
          return some (.dict (matchNames fields (merge entries inner)))
      | v => return setValue v
  | none => do
      let inner ← nested (innerValue origin group fields) (group ++ delimiter) vars []
      return if inner.isEmpty then none else some (.dict (matchNames fields inner))

/-- One value on top of another: mappings are merged, anything else is replaced. -/
def overlay : Option Value → Option Value → Option Value
  | some (.dict base), some (.dict top) => some (.dict (merge base top))
  | base, none => base
  | _, top => top

/-- The values of the fields of a group: those given, then those of the environment,
then those of the file.  Both origins are read in full, whatever is given. -/
def collect (env : Environment) (group : String) (fields : List SettingsField)
    (given : Options) : Except Failure Options := do
  let outer ← fields.mapM (fieldFrom .environment (env.read .environment) group)
  let file ← fields.mapM (fieldFrom .dotEnv (env.read .dotEnv) group)
  return ((fields.zip (outer.zip file)).filterMap fun e =>
    (overlay (overlay e.2.2 e.2.1) (Options.get? given e.1.name)).map fun v => (e.1.name, v))

end Settings

end Typeahead
