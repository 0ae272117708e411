import Typeahead.Mapping.FieldSpec

/-!
# Sub-fields

The declarations that a searchable attribute needs: its raw form first, then an
analyzed form for each tag of its mode.  An analyzed form is addressed in two ways,
by the dotted path below its attribute and by its flat name.
-/

namespace Typeahead

/-- One declared form of an attribute; the raw form has no tag. -/
structure SubField where
  attr : Value
  name : Value
  tag : Value
  analyzer : Value
  boost : Value
  fieldType : Value

namespace SubField

/-- The analyzer for typed text: it keeps the text whole. -/
def searchAnalyzer : String := "ac_search"

/-- The names that options of a sub-field may have. -/
def optionNames : List String := ["attr", "name", "tag", "analyzer", "boost", "field_type"]

/-- The raw form of an attribute. -/
def raw (attr name : Value) : SubField := ⟨attr, name, .null, .null, .int 1, .text "text"⟩

/-- A sub-field from options; what is not given is as in the raw form. -/
def ofOptions (options : Options) : Except Failure SubField := do
  options.require optionNames ["attr", "name"]
  return {
    attr := options.getD "attr" .null
    name := options.getD "name" .null
    tag := options.getD "tag" .null
    analyzer := options.getD "analyzer" .null
    boost := options.getD "boost" (.int 1)
    fieldType := options.getD "field_type" (.text "text") }

/-- Whether this is the raw form of its attribute. -/
def isRaw (s : SubField) : Bool :=
  match s.tag with
  | .null => true
  | _ => false

/-- The name below the attribute. -/
def nestedPath (s : SubField) : Except Failure Value := do
  let a ← s.attr.plain?
  let n ← s.name.plain?
  return .text (a ++ "." ++ n)

/-- The paths that a search addresses the form by. -/
def searchPaths (s : SubField) : Except Failure (List Value) :=
  if s.isRaw then .ok [s.attr]
  else do
    let path ← s.nestedPath
    return [path, s.name]

/-- The weight, where it is not one. -/
def boostEntries (s : SubField) : Entries :=
  if s.boost.same (.int 1) then [] else [(.text "boost", s.boost)]

/-- The declaration in an index body. -/
def declaration (s : SubField) : Value :=
  if s.isRaw then .dict [(.text "type", s.fieldType)]
  else .dict ([(.text "type", s.fieldType), (.text "analyzer", s.analyzer),
    (.text "search_analyzer", .text searchAnalyzer)] ++ s.boostEntries)

/-- The analyzed form of an attribute for a tag. -/
def analyzed (mode : Mode) (attr : Value) (tag : Tag) : Except Failure SubField := do
  let a ← attr.plain?
  return {
    attr := attr
    name := .text (tag.lead ++ "_" ++ a)
    tag := .text tag.name
    analyzer := .text tag.analyzer
    boost := .int (mode.boost tag)
    fieldType := .text "text" }

/-- All forms of one stored attribute. -/
def ofAttribute (mode : Mode) (attr : Value) : Except Failure (List SubField) := do
  let rest ← mode.tags.mapM (analyzed mode attr)
  return raw attr attr :: rest

end SubField

namespace FieldSpec

/-- All forms of a searchable attribute, in the order of its locales. -/
def subFields (spec : FieldSpec) : Except Failure (List SubField) := do
  let attrs ← spec.attributes
  let groups ← attrs.mapM (SubField.ofAttribute spec.mode)
  return groups.flatten

/-- All forms of several attributes. -/
def allSubFields (specs : List FieldSpec) : Except Failure (List SubField) := do
  let groups ← specs.mapM subFields
  return groups.flatten

end FieldSpec

namespace SubField

/-- The paths that a search addresses by default: the analyzed ones first, then the
attributes themselves. -/
def searchFields (subFields : List SubField) : Except Failure (List Value) := do
  let analyzed ← (subFields.filter fun s => !s.isRaw).mapM searchPaths
  return analyzed.flatten ++ (subFields.filter isRaw).map (·.attr)

end SubField

end Typeahead
