import Typeahead.Check.Field

/-!
# Lists of pairs

Filters and sort orders are lists of pairs that may be given in several shapes: as a
mapping, as pairs, as mappings inside a list, or as a mixture.  The functions here
flatten every shape to the list of pairs, in the order given.
-/

namespace Typeahead

namespace Pairs

/-- The two parts of a pair. -/
def split (v : Value) : Except Failure (Value × Value) :=
  match v.members? with
  | none => .error .wrongKind
  | some [a, b] => .ok (a, b)
  | some parts =>
      if parts.length < 2 then .error (.tooFewParts parts.length) else .error .tooManyParts

/-- The pairs that one item of a filter list stands for. -/
def ofFilterItem : Value → Except Failure (List (Value × Value))
  | .dict entries => .ok entries
  | v => (split v).map ([·])

/-- The pairs of a list of filters. -/
def ofFilters : Value → Except Failure (List (Value × Value))
  | .null => .ok []
  | .dict entries => .ok entries
  | v =>
      match v.members? with
      | none => .error .wrongKind
      | some items => do
          let groups ← items.mapM ofFilterItem
          return groups.flatten

/-- A direction, ascending when it is left blank. -/
def direction (v : Value) : Value := v.orElse (.text "asc")

/-- The pairs that one item of a sort order stands for. -/
def ofSortItem : Value → Except Failure (List (Value × Value))
  | .text s => .ok [(.text s, .text "asc")]
  | .dict entries => .ok (entries.map fun e => (e.1, direction e.2))
  | v => (split v).map fun p => [(p.1, direction p.2)]

/-- The items of a sort order: a single name or mapping stands for itself. -/
def sortItems : Value → Except Failure (List Value)
  | .null => .ok []
  | .text s => .ok [.text s]
  | .dict entries => .ok [.dict entries]
  | v =>
      match v.members? with
      | none => .error .wrongKind
      | some items => .ok items

/-- The pairs of a sort order. -/
def ofSort (v : Value) : Except Failure (List (Value × Value)) := do
  let items ← sortItems v
  let groups ← items.mapM ofSortItem
  return groups.flatten

/-- The complaint about a part of a pair that is no text. -/
def partIssues (part : Int) : Value → List Issue
  | .text _ => []
  | _ => [⟨[.position part], .textType⟩]

/-- A pair of a name and any value. -/
def named (p : Value × Value) : Check.Outcome (String × Value) :=
  match p.1 with
  | .text s => .ok (s, p.2)
  | v => .error (partIssues 0 v)

/-- A pair of two texts. -/
def namedText (p : Value × Value) : Check.Outcome (String × String) :=
  match p.1, p.2 with
  | .text s, .text t => .ok (s, t)
  | v, w => .error (partIssues 0 v ++ partIssues 1 w)

/-- Checks all pairs and gathers their issues by position. -/
def checked {α : Type} (check : Value × Value → Check.Outcome α) :
    Nat → List (Value × Value) → Check.Outcome (List α)
  | _, [] => .ok []
  | n, p :: ps =>
      match check p, checked check (n + 1) ps with
      | .ok a, .ok as => .ok (a :: as)
      | a, as => .error ((Check.issues a).map (Issue.under [.position n]) ++ Check.issues as)

/-- A field that holds a list of pairs.  An objection to the shape becomes an issue of
the field; a value of the wrong kind is a failure of the whole request. -/
def field {α : Type} (name : String) (flatten : Value → Except Failure (List (Value × Value)))
    (check : Value × Value → Check.Outcome α) (v : Value) :
    Except Failure (Check.Outcome (List α)) :=
  match flatten v with
  | .ok pairs =>
      match checked check 0 pairs with
      | .ok as => .ok (.ok as)
      | .error es => .ok (.error (es.map (Issue.under [.name name])))
  | .error failure =>
      match failure.objection? with
      | some reason => .ok (.error [.ofField name (.refused reason)])
      | none => .error failure

end Pairs

end Typeahead
