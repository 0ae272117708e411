import Typeahead.Mapping.Analysis

/-!
# Index bodies

An index body declares one property for each attribute and, inside it, one
multi-field for each form of the attribute.  Attributes stand in the order of their
first form; a later form of the same name replaces an earlier one.
-/

namespace Typeahead

/-- A declared attribute with its forms. -/
structure Property where
  attr : Value
  fields : Entries

namespace Property

/-- The form in an index body. -/
def toValue (p : Property) : Value :=
  .dict [(.text "type", .text "text"), (.text "fields", .dict p.fields)]

/-- Adds a form to the property of its attribute, which is new if need be. -/
def declare : List Property → SubField → List Property
  | [], s => [⟨s.attr, Entries.insert [] s.name s.declaration⟩]
  | p :: ps, s =>
      if p.attr.same s.attr then
        { p with fields := Entries.insert p.fields s.name s.declaration } :: ps
      else p :: declare ps s

/-- The properties of a list of forms.  Attributes and names have to be keys. -/
def ofSubFields (subFields : List SubField) : Except Failure (List Property) :=
  if subFields.all fun s => s.attr.isKey && s.name.isKey then
    .ok (subFields.foldl declare [])
  else .error .wrongKind

/-- Properties as entries of an index body. -/
def entries (ps : List Property) : Entries := ps.map fun p => (p.attr, p.toValue)

end Property

/-- The body that an index is created with. -/
structure IndexBody where
  analysis : Analysis
  properties : List Property

namespace IndexBody

/-- The body for a list of forms. -/
def ofSubFields (subFields : List SubField) : Except Failure IndexBody := do
  let properties ← Property.ofSubFields subFields
  return ⟨.standard, properties⟩

/-- The form that is sent. -/
def toValue (b : IndexBody) : Value :=
  .dict [(.text "settings", b.analysis.toValue),
    (.text "mappings", .dict [(.text "properties", .dict (Property.entries b.properties))])]

end IndexBody

end Typeahead
