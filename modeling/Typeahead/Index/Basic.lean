import Typeahead.Client.Cache
import Typeahead.Mapping.IndexBody
import Typeahead.Search.Body

/-!
# Indexes

The search configuration of one model, worked out once from its options.  Options that
are not given come from the settings.  The name of the index is the one given, or that
of the table, or that of the class in lower case, behind a common start if there is
one.
-/

namespace Typeahead

/-- The configuration of a searchable model. -/
structure Index where
  model : Model
  settings : Settings
  ownSettings : Bool
  options : Options
  attr : Value
  mode : Mode
  specs : List FieldSpec
  subFields : List SubField
  searchFields : List Value
  name : Value
  body : Option IndexBody
  fieldTypes : FieldTypes

namespace Index

/-- An option that may be missing. -/
def option (options : Options) (name : String) : Value := options.getD name .null

/-- An option that has to be there. -/
def requiredOption (options : Options) (name : String) : Except Failure Value :=
  match options.get? name with
  | some v => .ok v
  | none => .error (.missingKey (.text name))

/-- The searched attributes: those listed, or the one attribute with its locales. -/
def fieldSpecs (options : Options) (attr : Value) (mode : Mode) :
    Except Failure (List FieldSpec) := do
  let listed := option options "search_attrs"
  if listed.truthy then
    match listed.members? with
    | some names => return names.map fun name => ⟨name, mode, .bool false, []⟩
    | none => .error .wrongKind
  else
    let localized ← requiredOption options "localized"
    match ((option options "locales").orElse (.tuple [])).members? with
    | some locales => return [⟨attr, mode, localized, locales⟩]
    | none => .error .wrongKind

/-- Whether a text starts with one of several values; a value that is no text is
refused when it is met. -/
def startsWithAny (s : String) : List Value → Except Failure Bool
  | [] => .ok false
  | .text p :: rest =>
      if p.toList.isPrefixOf s.toList then .ok true else startsWithAny s rest
  | _ :: _ => .error .wrongKind

/-- Whether a name starts with a value or with one of a tuple of values. -/
def startsWith (name start : Value) : Except Failure Bool :=
  match name, start with
  | .text s, .text p => .ok (p.toList.isPrefixOf s.toList)
  | .text s, .tuple starts => startsWithAny s starts
  | .text _, _ => .error .wrongKind
  | _, _ => .error .noAttribute

/-- A name behind its common start. -/
def withStart (start name : Value) : Except Failure Value := do
  if start.truthy then
    if ← startsWith name start then return name
    else
      let p ← start.plain?
      let n ← name.plain?
      return .text (p ++ "_" ++ n)
  else return name

/-- The name of a model's index without anything in front: that of its table, unless it is
empty, and otherwise that of the class. -/
def modelName (model : Model) : Value :=
  ((model.table.map fun t => Value.text t.name).getD .null).orElse (.text (Text.lower model.name))

/-- The name of the index. -/
def indexName (model : Model) (options : Options) : Except Failure Value :=
  withStart (option options "index_prefix")
    ((option options "index_name").orElse (modelName model))

/-- The body to create the index with, unless it is left to the caller. -/
def indexBody (options : Options) (subFields : List SubField) :
    Except Failure (Option IndexBody) := do
  if (option options "skip_settings").truthy then return none
  else
    let body ← IndexBody.ofSubFields subFields
    return some body

/-- Where the types of filtered fields are looked up: in the index body, then among
the columns of the model. -/
def typeSources (model : Model) (body : Option IndexBody) : Except Failure FieldTypes := do
  let declared ← FieldTypes.ofMapping ((body.map IndexBody.toValue).getD .null)
  return .chain [declared, .model model]

/-- Works out the configuration of a model. -/
def create (env : Environment) (model : Model) (attr : Value) (given : Option Settings)
    (options : Options) : Except Failure Index := do
  let settings ← ClientCache.settingsFor env given
  let options := Options.override settings.autocomplete.toOptions options
  let attr ← if attr.truthy then pure attr else requiredOption options "attr"
  let mode ← Mode.resolve (option options "mode")
  let specs ← fieldSpecs options attr mode
  let subFields ← FieldSpec.allSubFields specs
  let searchFields ← SubField.searchFields subFields
  let name ← indexName model options
  let body ← indexBody options subFields
  let fieldTypes ← typeSources model body
  return {
    model := model
    settings := settings
    ownSettings := given.isSome
    options := options
    attr := attr
    mode := mode
    specs := specs
    subFields := subFields
    searchFields := searchFields
    name := name
    body := body
    fieldTypes := fieldTypes }

/-- The attributes that are searched. -/
def searchAttrs (index : Index) : List Value :=
  (index.subFields.filter SubField.isRaw).map (·.attr)

/-- Whether changes are written when they are committed, not when they are flushed. -/
def writesOnCommit (index : Index) : Bool := (option index.options "commit_callbacks").truthy

/-- The request for the client that the index uses when it is not given one. -/
def clientRequest (index : Index) : ClientRequest :=
  .placed (if index.ownSettings then some index.settings else none)

/-- The client that the index works with: the one it holds, or else a shared one. -/
def takeClient (env : Environment) (index : Index) (held : Option NumberedClient)
    (cache : ClientCache) : Except Failure NumberedClient × ClientCache :=
  match held with
  | some c => (.ok c, cache)
  | none => cache.shared env index.clientRequest

end Index

end Typeahead
