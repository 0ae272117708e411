import Typeahead.Search.Query
import Typeahead.Search.Request
import Typeahead.Terms

/-!
# Query bodies

A request is compiled to the body that the backend runs: a query, a sort order and
the window of the page.  Inclusions and exclusions become one clause each, in order.
With geo order the coordinates leave the filters; they give the point to sort by
unless the request brings one of its own.
-/

namespace Typeahead

/-- One criterion of a sort order. -/
inductive SortEntry where
  | distance (geoField : Value) (point : String)
  | by (field direction : String)

/-- A compiled search: hits `offset` to `offset + size` of a query, in an order. -/
structure SearchBody where
  query : Query
  sort : List SortEntry
  offset : Int
  size : Int

namespace SortEntry

/-- The form that is sent. -/
def toValue : SortEntry → Value
  | .distance geoField point =>
      .dict [(.text "_geo_distance", .dict (Entries.ofList [(geoField, .text point),
        (.text "order", .text "asc"), (.text "unit", .text "km")]))]
  | .by field direction => .dict [(.text field, .text direction)]

end SortEntry

namespace SearchBody

/-- The form that is sent. -/
def toValue (b : SearchBody) : Value :=
  .dict [(.text "query", b.query.toValue), (.text "sort", .list (b.sort.map SortEntry.toValue)),
    (.text "from", .int b.offset), (.text "size", .int b.size)]

end SearchBody

namespace Request

/-- Whether a filter gives a coordinate. -/
def isCoordinate (filter : String × Value) : Bool := filter.1 == "lat" || filter.1 == "lon"

/-- The filters that stay filters. -/
def inclusions (r : Request) : List (String × Value) :=
  if r.geoOrder then r.filters.filter fun f => !isCoordinate f else r.filters

/-- The last value that the filters give a coordinate, null when it is blank or
missing. -/
def extracted (r : Request) (name : String) : Value :=
  GeoPoint.presence (((r.filters.reverse.find? fun f => f.1 == name).map (·.2)).getD .null)

/-- The point to sort by. -/
def point (r : Request) : Check.Outcome (Option GeoPoint) :=
  match r.geo with
  | some p => .ok (some p)
  | none =>
      if r.geoOrder then (GeoPoint.read (r.extracted "lat") (r.extracted "lon")).map some
      else .ok none

/-- The clause of an inclusion. -/
def inclusionClause (typeOf : Value → Except Failure Value) (f : String × Value) :
    Except Failure Query := do
  let fieldType ← typeOf (.text f.1)
  let values ← Terms.ofOperand false fieldType f.2
  return .terms f.1 values

/-- The clause of an exclusion. -/
def exclusionClause (typeOf : Value → Except Failure Value) (f : String × Value) :
    Except Failure Query := do
  let fieldType ← typeOf (.text f.1)
  let values ← Terms.ofOperand true fieldType f.2
  return .compound none [] (some (.terms f.1 values))

/-- The clauses of all inclusions, then those of all exclusions. -/
def clauses (typeOf : Value → Except Failure Value) (r : Request) :
    Except Failure (List Query) := do
  let included ← r.inclusions.mapM (inclusionClause typeOf)
  let excluded ← r.exclusions.mapM (exclusionClause typeOf)
  return included ++ excluded

/-- The fields that the text is matched against. -/
def searchedFields (defaults : List Value) (r : Request) : List Value :=
  match r.fields with
  | some (f :: fs) => (f :: fs).map .text
  | _ => defaults

/-- The main condition; there is none without text. -/
def textCondition (defaults : List Value) (r : Request) : Option Query :=
  if r.text = "" then none else some (.multiMatch r.text (r.searchedFields defaults))

/-- A query from its main condition and its clauses; without both it matches
everything. -/
def combine (main : Option Query) (clauses : List Query) : Query :=
  if main.isNone && clauses.isEmpty then .matchAll else .compound main clauses none

/-- The criterion of distance, if there is a complete point. -/
def distanceSort (geoField : Value) (p : Option GeoPoint) : Except Failure (List SortEntry) :=
  match p with
  | none => .ok []
  | some p =>
      if p.isComplete then do
        let lat ← p.lat.plain?
        let lon ← p.lon.plain?
        if geoField.isKey then return [.distance geoField (lat ++ "," ++ lon)]
        else .error .wrongKind
      else .ok []

/-- Compiles a request.  A body that cannot be written down is refused. -/
def compile (defaults : List Value) (typeOf : Value → Except Failure Value) (geoField : Value)
    (r : Request) : Except Failure SearchBody := do
  match r.point with
  | .error es => .error (.invalid es)
  | .ok p =>
      let clauses ← r.clauses typeOf
      let distance ← distanceSort geoField p
      let body : SearchBody :=
        { query := combine (r.textCondition defaults) clauses
          sort := distance ++ r.sort.map fun s => .by s.1 s.2
          offset := r.offset
          size := r.perPage }
      body.toValue.requireWritable
      return body

end Request

end Typeahead
