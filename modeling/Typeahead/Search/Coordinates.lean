import Typeahead.Check.Field

/-!
# Coordinates

A point given by latitude and longitude.  Each is a number or text and keeps its own
kind; a point is complete when neither is missing or blank.
-/

namespace Typeahead

/-- A point; a missing coordinate is null. -/
structure GeoPoint where
  lat : Value
  lon : Value

namespace GeoPoint

/-- Whether a value is there: null and blank text are not. -/
def present : Value → Bool
  | .null => false
  | .text s => !Text.isBlankText s
  | _ => true

/-- The value, or null for blank text. -/
def presence (v : Value) : Value := if present v then v else .null

/-- One coordinate; truth values become numbers. -/
def readCoordinate (name : String) : Value → Check.Outcome Value
  | .null => .ok .null
  | .bool b => .ok (.int (Value.ofBool b))
  | .int n => .ok (.int n)
  | .float x => .ok (.float x)
  | .text s => .ok (.text s)
  | _ => .error [⟨[.name name, .name "int"], .intType⟩, ⟨[.name name, .name "float"], .floatType⟩,
      ⟨[.name name, .name "str"], .textType⟩]

/-- A point from its two coordinates. -/
def read (lat lon : Value) : Check.Outcome GeoPoint :=
  match readCoordinate "lat" lat, readCoordinate "lon" lon with
  | .ok a, .ok b => .ok ⟨a, b⟩
  | a, b => .error (Check.issues a ++ Check.issues b)

/-- A point from a mapping with two names. -/
def ofValue (field : String) (v : Value) : Check.Outcome GeoPoint :=
  match v with
  | .dict entries =>
      match read (Entries.get entries "lat") (Entries.get entries "lon") with
      | .ok p => .ok p
      | .error es => .error (es.map (Issue.under [.name field]))
  | _ => .error [.ofField field (.modelType "GeoPoint")]

/-- Whether both coordinates are there. -/
def isComplete (p : GeoPoint) : Bool := present p.lat && present p.lon

end GeoPoint

end Typeahead
