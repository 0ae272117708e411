import Typeahead.Check.Field
import Typeahead.Options

/-!
# Pages of hits

One page of the answer to a search, with the number of all hits and of all pages.
-/

namespace Typeahead

/-- One page of hits. -/
structure Page where
  total : Int
  hits : List Entries
  page : Int
  perPage : Int

namespace Page

/-- A page from options; names it does not know are ignored. -/
def ofOptions (o : Options) : Check.Outcome Page :=
  let total := Check.field "total" Check.readInt (o.getD "total" (.int 0))
  let hits := Check.sequence "hits" .listType Check.readRecord (o.getD "hits" (.list []))
  let page := Check.field "page" Check.readInt (o.getD "page" (.int 1))
  let perPage := Check.field "per_page" Check.readInt (o.getD "per_page" (.int 50))
  match total, hits, page, perPage with
  | .ok total, .ok hits, .ok page, .ok perPage => .ok ⟨total, hits, page, perPage⟩
  | total, hits, page, perPage =>
      .error (Check.issues total ++ Check.issues hits ++ Check.issues page ++
        Check.issues perPage)

/-- The number of pages that all hits fill, rounded up; none without a page size. -/
def totalPages (p : Page) : Int :=
  if p.perPage = 0 then 0 else -(Int.fdiv (-p.total) p.perPage)

end Page

end Typeahead
