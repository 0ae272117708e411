import Typeahead.Mode
import Typeahead.Options

/-!
# Searchable fields

A field specification names an attribute, its mode, and the locales that it is
expanded to.  `FieldSpec.attributes` are the names under which the attribute is
stored: its own, or one for each locale.
-/

namespace Typeahead

/-- An attribute that can be searched. -/
structure FieldSpec where
  name : Value
  mode : Mode
  localized : Value
  locales : List Value

namespace FieldSpec

/-- The names that options of a specification may have. -/
def optionNames : List String := ["name", "mode", "localized", "locales"]

/-- A specification from options: word mode and no locales unless told otherwise. -/
def ofOptions (options : Options) : Except Failure FieldSpec := do
  options.require optionNames ["name"]
  let mode ← Mode.resolve (options.getD "mode" (.text Mode.word.name))
  match (options.getD "locales" (.tuple [])).members? with
  | some locales =>
      return ⟨options.getD "name" .null, mode, options.getD "localized" (.bool false), locales⟩
  | none => .error .wrongKind

/-- The name of an attribute in a locale. -/
def localizedName (name locale : Value) : Except Failure Value := do
  let n ← name.plain?
  let l ← locale.plain?
  return .text (n ++ "_" ++ l)

/-- The names under which an attribute is stored. -/
def attributes (spec : FieldSpec) : Except Failure (List Value) :=
  if spec.localized.truthy then
    if spec.locales.isEmpty then do
      spec.name.requireWritable
      .error (.missingLocales spec.name)
    else spec.locales.mapM (localizedName spec.name)
  else .ok [spec.name]

end FieldSpec

end Typeahead
