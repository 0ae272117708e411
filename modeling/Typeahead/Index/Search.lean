import Typeahead.Index.Basic

/-!
# Searching an index

Searches of one model: the configured fields, page size and geo field apply unless the
call says otherwise.
-/

namespace Typeahead

namespace Index

/-- The request of a call. -/
def request (index : Index) (text : Value) (options : Options) : Except Failure Request := do
  let perPage ← requiredOption index.options "per_page"
  let options := if options.has "per_page" then options else options.set "per_page" perPage
  Request.ofOptions (options.set "text" text)

/-- The query body of a call. -/
def buildQuery (index : Index) (text : Value) (options : Options) :
    Except Failure SearchBody := do
  let request ← index.request text options
  let geoField ← requiredOption index.options "geo_field"
  request.compile index.searchFields index.fieldTypes.resolve geoField

/-- Runs a search. -/
def search (index : Index) (client : Client) (backend : Backend) (text : Value)
    (options : Options) : Exchange Page :=
  match index.buildQuery text options with
  | .ok body => client.search backend index.name body.toValue
  | .error e => Exchange.lift (.error e)

end Index

end Typeahead
