import Typeahead.Proofs.Outcome
import Typeahead.Search.Request

/-!
# What a valid request was read from

Options make a request when each of its fields can be read from them.  `Request.ReadFrom` says so
field by field.
-/

namespace Typeahead

namespace Request

/-- Every field of a request is what is read from the options for it. -/
structure ReadFrom (options : Options) (r : Request) : Prop where
  text : readText (options.getD "text" .null) = .ok r.text
  fields : readFields (options.getD "fields" .null) = .ok r.fields
  filters : Pairs.field "filters" Pairs.ofFilters Pairs.named (options.getD "filters" .null) =
    .ok (.ok r.filters)
  exclusions : Pairs.field "exclusions" Pairs.ofFilters Pairs.named
    (options.getD "exclusions" .null) = .ok (.ok r.exclusions)
  sort : Pairs.field "sort" Pairs.ofSort Pairs.namedText (options.getD "sort" .null) =
    .ok (.ok r.sort)
  geo : Check.optional (GeoPoint.ofValue "geo") (options.getD "geo" .null) = .ok r.geo
  geoOrder : Check.field "geo_order" Check.readBool (options.getD "geo_order" (.bool false)) =
    .ok r.geoOrder
  page : positiveInt defaultPage (options.getD "page" .null) = .ok r.page
  perPage : positiveInt defaultPerPage (options.getD "per_page" .null) = .ok r.perPage

theorem ofOptions_eq_ok_iff {options : Options} {r : Request} :
    ofOptions options = .ok r ↔ ReadFrom options r := by
  constructor
  · intro h
    simp only [ofOptions, Outcome.bind_eq_ok_iff] at h
    obtain ⟨_, hfilters, _, hexclusions, _, hsort, _, hpage, _, hperPage, h⟩ := h
    split at h
    · next htext hfields hgeo hgeoOrder =>
      obtain rfl := (Outcome.pure_eq_ok_iff _ _).mp h
      exact ⟨htext, hfields, hfilters, hexclusions, hsort, hgeo, hgeoOrder, hpage, hperPage⟩
    · cases h
  · intro h
    rw [ofOptions, h.filters, h.exclusions, h.sort, h.page, h.perPage, h.text, h.fields, h.geo,
      h.geoOrder]
    rfl

/-- Other numbers of the page change nothing else. -/
theorem ReadFrom.renumbered {options others : Options} {r : Request} (h : ReadFrom options r)
    (hother : ∀ name d, name ≠ "page" → name ≠ "per_page" →
      others.getD name d = options.getD name d) {n size : Int}
    (hpage : positiveInt defaultPage (others.getD "page" .null) = .ok n)
    (hperPage : positiveInt defaultPerPage (others.getD "per_page" .null) = .ok size) :
    ReadFrom others { r with page := n, perPage := size } where
  text := by rw [hother _ _ (by decide) (by decide)]; exact h.text
  fields := by rw [hother _ _ (by decide) (by decide)]; exact h.fields
  filters := by rw [hother _ _ (by decide) (by decide)]; exact h.filters
  exclusions := by rw [hother _ _ (by decide) (by decide)]; exact h.exclusions
  sort := by rw [hother _ _ (by decide) (by decide)]; exact h.sort
  geo := by rw [hother _ _ (by decide) (by decide)]; exact h.geo
  geoOrder := by rw [hother _ _ (by decide) (by decide)]; exact h.geoOrder
  page := hpage
  perPage := hperPage

end Request

end Typeahead
