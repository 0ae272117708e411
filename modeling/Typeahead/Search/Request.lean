import Typeahead.Options
import Typeahead.Search.Coordinates
import Typeahead.Search.Pairs

/-!
# Search requests

One call of an autocomplete search, after its options have been checked and brought
into one form.  Page numbers are forgiving: what cannot be read as a positive whole
number falls back to a default.
-/

namespace Typeahead

/-- A search call.  `fields` replaces the configured search fields; with `geoOrder`
the coordinates among the filters order the hits by distance. -/
structure Request where
  text : String
  fields : Option (List String)
  filters : List (String × Value)
  exclusions : List (String × Value)
  sort : List (String × String)
  geo : Option GeoPoint
  geoOrder : Bool
  page : Int
  perPage : Int

namespace Request

/-- The page that is asked for by default. -/
def defaultPage : Int := 1

/-- The number of hits on a page by default. -/
def defaultPerPage : Int := 50

/-- A whole number out of any value, if it has one; infinities are beyond range. -/
def wholeNumber? : Value → Except Failure (Option Int)
  | .bool b => .ok (some (Value.ofBool b))
  | .int n => .ok (some n)
  | .float .nan => .ok none
  | .float (.infinite _) => .error .beyondRange
  | .float x => .ok x.truncate?
  | .text s =>
      match Numeral.readInt s with
      | .ok n => .ok (some n)
      | .error _ => .ok none
  | _ => .ok none

/-- A positive whole number, or a default. -/
def positiveInt (default : Int) (v : Value) : Except Failure Int := do
  if GeoPoint.present v then
    match ← wholeNumber? v with
    | some n => return if 0 < n then n else default
    | none => return default
  else return default

/-- The searched text; null is empty. -/
def readText : Value → Check.Outcome String
  | .null => .ok ""
  | v => Check.field "text" Check.readText v

/-- The fields that replace the configured ones. -/
def readFields : Value → Check.Outcome (Option (List String)) :=
  Check.optional (Check.sequence "fields" .listType (Check.item Check.readText))

/-- A request from options; names it does not know are ignored. -/
def ofOptions (options : Options) : Except Failure Request := do
  let text := readText (options.getD "text" .null)
  let fields := readFields (options.getD "fields" .null)
  let filters ← Pairs.field "filters" Pairs.ofFilters Pairs.named (options.getD "filters" .null)
  let exclusions ←
    Pairs.field "exclusions" Pairs.ofFilters Pairs.named (options.getD "exclusions" .null)
  let sort ← Pairs.field "sort" Pairs.ofSort Pairs.namedText (options.getD "sort" .null)
  let geo := Check.optional (GeoPoint.ofValue "geo") (options.getD "geo" .null)
  let geoOrder := Check.field "geo_order" Check.readBool (options.getD "geo_order" (.bool false))
  let page ← positiveInt defaultPage (options.getD "page" .null)
  let perPage ← positiveInt defaultPerPage (options.getD "per_page" .null)
  match text, fields, filters, exclusions, sort, geo, geoOrder with
  | .ok text, .ok fields, .ok filters, .ok exclusions, .ok sort, .ok geo, .ok geoOrder =>
      return ⟨text, fields, filters, exclusions, sort, geo, geoOrder, page, perPage⟩
  | text, fields, filters, exclusions, sort, geo, geoOrder =>
      .error (.invalid (Check.issues text ++ Check.issues fields ++ Check.issues filters ++
        Check.issues exclusions ++ Check.issues sort ++ Check.issues geo ++
        Check.issues geoOrder))

/-- The number of hits before the page. -/
def offset (r : Request) : Int := (r.page - 1) * r.perPage

end Request

end Typeahead
