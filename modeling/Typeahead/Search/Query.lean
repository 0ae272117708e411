import Typeahead.Value.Basic

/-!
# Queries

The conditions that the search backend evaluates.  A compound query is the
conjunction of its main condition, of all its filters, and of the negation of its
excluded condition.
-/

namespace Typeahead

/-- A condition on documents. -/
inductive Query where
  | matchAll
  | multiMatch (text : String) (fields : List Value)
  | terms (field : String) (values : List Value)
  | compound (must : Option Query) (filters : List Query) (mustNot : Option Query)

namespace Query

mutual

/-- The form that is sent. -/
def toValue : Query → Value
  | .matchAll => .dict [(.text "match_all", .dict [])]
  | .multiMatch text fields =>
      .dict [(.text "multi_match",
        .dict [(.text "query", .text text), (.text "fields", .list fields)])]
  | .terms field values => .dict [(.text "terms", .dict [(.text field, .list values)])]
  | .compound must filters mustNot =>
      .dict [(.text "bool", .dict (mustEntries must ++ filterEntries filters ++
        mustNotEntries mustNot))]

/-- The main condition, if there is one. -/
def mustEntries : Option Query → Entries
  | none => []
  | some q => [(.text "must", toValue q)]

/-- The filters, if there are any. -/
def filterEntries : List Query → Entries
  | [] => []
  | q :: qs => [(.text "filter", .list (toValue q :: filterValues qs))]

/-- The forms of several filters. -/
def filterValues : List Query → List Value
  | [] => []
  | q :: qs => toValue q :: filterValues qs

/-- The excluded condition, if there is one. -/
def mustNotEntries : Option Query → Entries
  | none => []
  | some q => [(.text "must_not", toValue q)]

end

end Query

end Typeahead
