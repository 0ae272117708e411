import Typeahead.Index.Search
import Typeahead.Proofs.Check
import Typeahead.Proofs.Index.Contents
import Typeahead.Proofs.Search.Paging
import Typeahead.Proofs.Search.Requests

/-!
# Shapes of one list of pairs

A list of filters or of sort criteria may be written in several shapes.  `Pairs.Shape` says which
value is a list of pairs written down: items one after another, each a pair or a mapping of several
names, or a single item by itself.  A request depends on the list alone, and its own fields, in the
shape that they are kept in, make the same request again.
-/

namespace Typeahead

namespace Pairs

/-- Named values as a mapping. -/
def record (es : List (String × Value)) : Value :=
  .dict (Entries.ofList (es.map fun e => (.text e.1, e.2)))

/-- One item of a list of pairs: a pair, or a mapping of different names.  What a second part
stands for is left to `Reads`. -/
inductive Item {α : Type} (Reads : Value → α → Prop) : Value → List (String × α) → Prop
  | list {v : Value} {a : α} (name : String) (h : Reads v a) :
      Item Reads (.list [.text name, v]) [(name, a)]
  | tuple {v : Value} {a : α} (name : String) (h : Reads v a) :
      Item Reads (.tuple [.text name, v]) [(name, a)]
  | record {es : List (String × Value)} {ps : List (String × α)}
      (hnames : (es.map (·.1)).Nodup)
      (h : List.Forall₂ (fun e p => e.1 = p.1 ∧ Reads e.2 p.2) es ps) : Item Reads (record es) ps

/-- One filter or several of them.  The operands stand for themselves. -/
abbrev FilterItem : Value → List (String × Value) → Prop := Item fun v w => v = w

/-- What a direction stands for: a text for itself, and a blank for the ascending one. -/
inductive Directs : Value → String → Prop
  | text {s : String} (h : s ≠ "") : Directs (.text s) s
  | blank {v : Value} (h : v.truthy = false) : Directs v "asc"

/-- One criterion of a sort order or several of them.  A name by itself is ascending. -/
inductive SortItem : Value → List (String × String) → Prop
  | name (s : String) : SortItem (.text s) [(s, "asc")]
  | item {v : Value} {ps : List (String × String)} (h : Item Directs v ps) : SortItem v ps

/-- A list of pairs as a value: null for none, a single item that is no pair, or a list or a tuple
of items. -/
inductive Shape {α : Type} (IsItem : Value → List (String × α) → Prop) :
    Value → List (String × α) → Prop
  | none : Shape IsItem .null []
  | single {v : Value} {ps : List (String × α)} (h : IsItem v ps) (hv : v.items? = Option.none) :
      Shape IsItem v ps
  | list {vs : List Value} {groups : List (List (String × α))}
      (h : List.Forall₂ IsItem vs groups) : Shape IsItem (.list vs) groups.flatten
  | tuple {vs : List Value} {groups : List (List (String × α))}
      (h : List.Forall₂ IsItem vs groups) : Shape IsItem (.tuple vs) groups.flatten

/-- The shape that a list of pairs is kept in. -/
def tuples {α : Type} (toValue : α → Value) (ps : List (String × α)) : Value :=
  .list (ps.map fun p => .tuple [.text p.1, toValue p.2])

/-- The entries of a list of pairs. -/
def entries {α : Type} (toValue : α → Value) (ps : List (String × α)) : List (Value × Value) :=
  ps.map fun p => (.text p.1, toValue p.2)

section Reading

variable {α : Type} {IsItem : Value → List (String × α) → Prop} {toValue : α → Value}
  {v : Value} {ps : List (String × α)}

theorem shape_tuples (h : ∀ p ∈ ps, IsItem (.tuple [.text p.1, toValue p.2]) [p]) :
    Shape IsItem (tuples toValue ps) ps := by
  have hitems : List.Forall₂ IsItem (ps.map fun p => .tuple [.text p.1, toValue p.2])
      (ps.map fun p => [p]) := by
    rw [List.forall₂_map_left_iff, List.forall₂_map_right_iff, List.forall₂_same]
    exact h
  have hshape := Shape.list hitems
  rw [← List.flatMap_def, List.flatMap_singleton'] at hshape
  exact hshape

/-- Items that are taken apart one by one give the whole list. -/
theorem flatten_mapM {vs : List Value} {groups : List (List (String × α))}
    (h : List.Forall₂ IsItem vs groups) {split : Value → Except Failure (List (Value × Value))}
    (hsplit : ∀ v ps, IsItem v ps → split v = .ok (entries toValue ps)) :
    (do let found ← vs.mapM split; return found.flatten : Except Failure _) =
      .ok (entries toValue groups.flatten) := by
  have hmap : vs.mapM split = .ok (groups.map (entries toValue)) := by
    rw [Outcome.mapM_eq_ok_iff, List.forall₂_map_right_iff]
    exact h.imp hsplit
  rw [hmap, entries, List.map_flatten]
  rfl

/-- Pairs that all pass their check are the result of it. -/
theorem checked_entries {check : Value × Value → Check.Outcome (String × α)} (n : Nat)
    (h : ∀ p, check (.text p.1, toValue p.2) = .ok p) (ps : List (String × α)) :
    checked check n (entries toValue ps) = .ok ps := by
  induction ps generalizing n with
  | nil => rfl
  | cons p ps ih =>
      have hps := ih (n + 1)
      rw [entries] at hps
      rw [entries, List.map_cons, checked, h, hps]

/-- What a check has passed are the pairs that it gives. -/
theorem entries_of_checked {check : Value × Value → Check.Outcome (String × α)}
    (h : ∀ p q, check p = .ok q → p = (.text q.1, toValue q.2)) {n : Nat}
    {pairs : List (Value × Value)} (hchecked : checked check n pairs = .ok ps) :
    pairs = entries toValue ps := by
  induction pairs generalizing n ps with
  | nil =>
      obtain rfl := Except.ok.inj hchecked
      rfl
  | cons p pairs ih =>
      rw [checked] at hchecked
      split at hchecked
      · next q qs hq hqs =>
        obtain rfl := Except.ok.inj hchecked
        rw [h p q hq, ih hqs]
        rfl
      · cases hchecked

/-- A field of pairs holds what its value is flattened to. -/
theorem field_of_flatten {name : String} {flatten : Value → Except Failure (List (Value × Value))}
    {check : Value × Value → Check.Outcome (String × α)} (hflatten : flatten v =
      .ok (entries toValue ps)) (h : ∀ p, check (.text p.1, toValue p.2) = .ok p) :
    field name flatten check v = .ok (.ok ps) := by
  rw [field, hflatten]
  dsimp only
  rw [checked_entries 0 h]

end Reading

theorem record_eq {es : List (String × Value)} (h : (es.map (·.1)).Nodup) :
    record es = .dict (es.map fun e => (.text e.1, e.2)) := by
  refine congrArg Value.dict (Entries.ofList_of_distinct ?_)
  rw [Entries.Distinct, List.pairwise_map]
  refine List.Pairwise.imp ?_ (List.pairwise_map.mp h)
  intro d e hne
  rw [Bool.eq_false_iff, Ne, Value.same_text_iff, Value.text.injEq]
  exact fun heq => hne heq.symm

theorem direction_of_directs {v : Value} {d : String} (h : Directs v d) :
    direction v = .text d := by
  cases h with
  | text hs =>
      rw [direction, Value.orElse, if_pos (by simpa [Value.truthy] using hs)]
  | blank hv => rw [direction, Value.orElse, hv, if_neg Bool.false_ne_true]

theorem ofFilterItem_of_item {v : Value} {ps : List (String × Value)} (h : FilterItem v ps) :
    ofFilterItem v = .ok (entries id ps) := by
  cases h with
  | list name h =>
      subst h
      rfl
  | tuple name h =>
      subst h
      rfl
  | @record es _ hnames h =>
      obtain rfl : es = ps := by
        rw [← List.forall₂_eq_eq_eq]
        exact h.imp fun e p hep => Prod.ext hep.1 hep.2
      rw [record_eq hnames]
      rfl

theorem ofSortItem_of_item {v : Value} {ps : List (String × String)} (h : SortItem v ps) :
    ofSortItem v = .ok (entries Value.text ps) := by
  cases h with
  | name s => rfl
  | item h =>
      cases h with
      | list name h =>
          rw [entries, List.map_singleton, ← direction_of_directs h]
          rfl
      | tuple name h =>
          rw [entries, List.map_singleton, ← direction_of_directs h]
          rfl
      | record hnames h =>
          rw [record_eq hnames, ofSortItem, List.map_map]
          refine congrArg Except.ok ?_
          induction h with
          | nil => rfl
          | cons hep _ ih =>
              have htail := ih (List.nodup_cons.mp hnames).2
              rw [entries] at htail
              rw [List.map_cons, htail, entries, List.map_cons, Function.comp_apply,
                direction_of_directs hep.2, hep.1]

theorem ofFilters_of_shape {v : Value} {ps : List (String × Value)} (h : Shape FilterItem v ps) :
    ofFilters v = .ok (entries id ps) := by
  cases h with
  | none => rfl
  | single h hv =>
      have hitem := ofFilterItem_of_item h
      cases h with
      | list name h => cases hv
      | tuple name h => cases hv
      | record hnames h => exact hitem
  | list h => exact flatten_mapM h fun _ _ => ofFilterItem_of_item
  | tuple h => exact flatten_mapM h fun _ _ => ofFilterItem_of_item

theorem ofSort_of_shape {v : Value} {ps : List (String × String)} (h : Shape SortItem v ps) :
    ofSort v = .ok (entries Value.text ps) := by
  have hitems {vs : List Value} {groups : List (List (String × String))} (hv : sortItems v = .ok vs)
      (h : List.Forall₂ SortItem vs groups) :
      ofSort v = .ok (entries Value.text groups.flatten) := by
    rw [ofSort, hv]
    exact flatten_mapM h fun _ _ => ofSortItem_of_item
  cases h with
  | none => rfl
  | single h hv =>
      have hone : sortItems v = .ok [v] := by
        cases h with
        | name s => rfl
        | item h =>
            cases h with
            | list name h => cases hv
            | tuple name h => cases hv
            | record hnames h => rfl
      have hsort := hitems hone (.cons h .nil)
      rw [List.flatten_singleton] at hsort
      exact hsort
  | list h => exact hitems rfl h
  | tuple h => exact hitems rfl h

theorem field_filters {v : Value} {ps : List (String × Value)} (h : Shape FilterItem v ps)
    (name : String) : field name ofFilters named v = .ok (.ok ps) :=
  field_of_flatten (ofFilters_of_shape h) fun _ => rfl

theorem field_sort {v : Value} {ps : List (String × String)} (h : Shape SortItem v ps)
    (name : String) : field name ofSort namedText v = .ok (.ok ps) :=
  field_of_flatten (ofSort_of_shape h) fun _ => rfl

theorem field_eq_ok {α : Type} {name : String}
    {flatten : Value → Except Failure (List (Value × Value))}
    {check : Value × Value → Check.Outcome α} {v : Value} {as : List α}
    (h : field name flatten check v = .ok (.ok as)) :
    ∃ pairs, flatten v = .ok pairs ∧ checked check 0 pairs = .ok as := by
  rw [field] at h
  split at h
  · next pairs hpairs =>
    refine ⟨pairs, hpairs, ?_⟩
    split at h
    · next hchecked => rw [hchecked, Except.ok.inj (Except.ok.inj h)]
    · cases Except.ok.inj h
  · split at h
    · cases Except.ok.inj h
    · cases h

/-- No direction is left blank. -/
theorem direction_ne (v : Value) : direction v ≠ .text "" := by
  rw [direction, Value.orElse]
  split
  · rintro rfl
    contradiction
  · simp

theorem directed_of_ofSortItem {v : Value} {pairs : List (Value × Value)}
    (h : ofSortItem v = .ok pairs) : ∀ p ∈ pairs, p.2 ≠ .text "" := by
  intro p hp
  unfold ofSortItem at h
  split at h
  · obtain rfl := Except.ok.inj h
    rw [List.mem_singleton.mp hp]
    simp
  · obtain rfl := Except.ok.inj h
    obtain ⟨e, _, rfl⟩ := List.mem_map.mp hp
    exact direction_ne e.2
  · cases hsplit : split v with
    | error e =>
        rw [hsplit] at h
        cases h
    | ok q =>
        rw [hsplit] at h
        obtain rfl := Except.ok.inj h
        rw [List.mem_singleton.mp hp]
        exact direction_ne q.2

theorem eq_of_namedText {p : Value × Value} {q : String × String} (h : namedText p = .ok q) :
    p = (.text q.1, .text q.2) := by
  unfold namedText at h
  split at h
  · next hname hdirection =>
    obtain rfl := Except.ok.inj h
    exact Prod.ext hname hdirection
  · cases h

/-- The directions of a sort order that was read are not blank. -/
theorem directed_of_field {name : String} {v : Value} {ss : List (String × String)}
    (h : field name ofSort namedText v = .ok (.ok ss)) : ∀ s ∈ ss, s.2 ≠ "" := by
  obtain ⟨pairs, hpairs, hchecked⟩ := field_eq_ok h
  obtain rfl := entries_of_checked (fun _ _ => eq_of_namedText) hchecked
  obtain ⟨items, _, hrest⟩ := (Outcome.bind_eq_ok_iff _ _ _).mp hpairs
  obtain ⟨groups, hgroups, hflatten⟩ := (Outcome.bind_eq_ok_iff _ _ _).mp hrest
  intro s hs hblank
  have hmem : (Value.text s.1, Value.text s.2) ∈ groups.flatten := by
    rw [(Outcome.pure_eq_ok_iff _ _).mp hflatten]
    exact List.mem_map_of_mem hs
  obtain ⟨group, hgroup, hp⟩ := List.mem_flatten.mp hmem
  have hdirected := (Outcome.forall_mem_of_mapM hgroups fun group => ∀ p ∈ group,
    p.2 ≠ .text "").mpr fun item _ group hitem => directed_of_ofSortItem hitem
  exact hdirected group hgroup _ hp (congrArg Value.text hblank)

end Pairs

namespace GeoPoint

/-- A point as the mapping that it is kept as. -/
def toValue (p : GeoPoint) : Value := .dict [(.text "lat", p.lat), (.text "lon", p.lon)]

theorem readCoordinate_again {name other : String} {v w : Value}
    (h : readCoordinate name v = .ok w) : readCoordinate other w = .ok w := by
  cases v with
  | null | bool _ | int _ | float _ | text _ =>
      obtain rfl := Except.ok.inj h
      rfl
  | _ => cases h

/-- A point that was read is read again as it is. -/
theorem ofValue_toValue {name : String} {v : Value} {p : GeoPoint} (h : ofValue name v = .ok p)
    (other : String) : ofValue other p.toValue = .ok p := by
  have hread : ∃ lat lon, read lat lon = .ok p := by
    cases v with
    | dict entries =>
        rw [ofValue] at h
        split at h
        · next q hq => exact ⟨_, _, Except.ok.inj h ▸ hq⟩
        · cases h
    | _ => cases h
  obtain ⟨lat, lon, hread⟩ := hread
  have hagain : read p.lat p.lon = .ok p := by
    rw [read] at hread
    split at hread
    · next hlat hlon =>
      obtain rfl := Except.ok.inj hread
      rw [read, readCoordinate_again hlat, readCoordinate_again hlon]
    · cases hread
  have hlat : Entries.get [(.text "lat", p.lat), (.text "lon", p.lon)] "lat" = p.lat := rfl
  have hlon : Entries.get [(.text "lat", p.lat), (.text "lon", p.lon)] "lon" = p.lon := rfl
  rw [toValue, ofValue, hlat, hlon, hagain]

end GeoPoint

namespace Request

open Pairs

/-- The fields of a request as options. -/
def toOptions (r : Request) : Options :=
  [("text", .text r.text),
    ("fields", (r.fields.map fun fs => .list (fs.map .text)).getD .null),
    ("filters", tuples id r.filters), ("exclusions", tuples id r.exclusions),
    ("sort", tuples .text r.sort), ("geo", (r.geo.map GeoPoint.toValue).getD .null),
    ("geo_order", .bool r.geoOrder), ("page", .int r.page), ("per_page", .int r.perPage)]

variable {options : Options} {r : Request}

/-- What was read from options is read again from itself. -/
theorem ReadFrom.again (h : ReadFrom options r) : ReadFrom r.toOptions r where
  text := rfl
  fields := by
    change readFields ((r.fields.map fun fs => .list (fs.map .text)).getD .null) = .ok r.fields
    cases r.fields with
    | none => rfl
    | some fs =>
        refine Check.optional_of_read Value.noConfusion ?_
        change Check.sequence "fields" .listType _ (.list (fs.map .text)) = .ok fs
        simp only [Check.sequence, Value.items?, Check.items_texts]
  filters := field_filters (shape_tuples fun p _ => .tuple p.1 rfl) "filters"
  exclusions := field_filters (shape_tuples fun p _ => .tuple p.1 rfl) "exclusions"
  sort := by
    refine field_sort (shape_tuples fun p hp => .item (.tuple p.1 (.text ?_))) "sort"
    exact directed_of_field h.sort p hp
  geo := by
    change Check.optional (GeoPoint.ofValue "geo") ((r.geo.map GeoPoint.toValue).getD .null) =
      .ok r.geo
    cases hgeo : r.geo with
    | none => rfl
    | some p =>
        rcases Check.optional_eq_ok (hgeo ▸ h.geo) with ⟨_, hnone⟩ | ⟨q, hq, hread⟩
        · cases hnone
        · obtain rfl := Option.some.inj hq
          exact Check.optional_of_read Value.noConfusion (GeoPoint.ofValue_toValue hread "geo")
  geoOrder := rfl
  page := positiveInt_of_pos _ (positiveInt_pos (by decide) h.page)
  perPage := positiveInt_of_pos _ (positiveInt_pos (by decide) h.perPage)

/-- Whether two values are the same or two shapes of one list of pairs. -/
def SameList {α : Type} (IsItem : Value → List (String × α) → Prop) (v w : Value) : Prop :=
  v = w ∨ ∃ ps, Shape IsItem v ps ∧ Shape IsItem w ps

/-- Calls that give the same options, but for the shapes of their lists of pairs. -/
structure WrittenAlike (o o' : Options) : Prop where
  rest : ∀ name, name ∉ ["filters", "exclusions", "sort"] → o.get? name = o'.get? name
  filters : SameList FilterItem (o.getD "filters" .null) (o'.getD "filters" .null)
  exclusions : SameList FilterItem (o.getD "exclusions" .null) (o'.getD "exclusions" .null)
  sort : SameList SortItem (o.getD "sort" .null) (o'.getD "sort" .null)

theorem SameList.field_filters {v w : Value} (h : SameList FilterItem v w) (name : String) :
    field name ofFilters named v = field name ofFilters named w := by
  rcases h with rfl | ⟨ps, hv, hw⟩
  · rfl
  · rw [Pairs.field_filters hv, Pairs.field_filters hw]

theorem SameList.field_sort {v w : Value} (h : SameList SortItem v w) (name : String) :
    field name ofSort namedText v = field name ofSort namedText w := by
  rcases h with rfl | ⟨ps, hv, hw⟩
  · rfl
  · rw [Pairs.field_sort hv, Pairs.field_sort hw]

namespace WrittenAlike

variable {o o' : Options} (h : WrittenAlike o o')

include h

theorem getD_eq (name : String) (hname : name ∉ ["filters", "exclusions", "sort"]) (d : Value) :
    o.getD name d = o'.getD name d := by
  rw [Options.getD, Options.getD, h.rest name hname]

theorem ofOptions_eq : ofOptions o = ofOptions o' := by
  unfold ofOptions
  rw [h.getD_eq "text" (by decide), h.getD_eq "fields" (by decide), h.getD_eq "geo" (by decide),
    h.getD_eq "geo_order" (by decide), h.getD_eq "page" (by decide),
    h.getD_eq "per_page" (by decide), h.filters.field_filters, h.exclusions.field_filters,
    h.sort.field_sort]

/-- Another option for both. -/
theorem set {name : String} (hname : name ∉ ["filters", "exclusions", "sort"]) (v : Value) :
    WrittenAlike (o.set name v) (o'.set name v) := by
  have hother (other : String) (hmem : other ∈ ["filters", "exclusions", "sort"])
      (p : Options) : (p.set name v).getD other .null = p.getD other .null := by
    rw [Options.getD_set, if_neg]
    rintro rfl
    exact hname hmem
  constructor
  · intro other hother
    rw [Options.get?_set, Options.get?_set, h.rest other hother]
  · rw [hother "filters" (by decide), hother "filters" (by decide)]
    exact h.filters
  · rw [hother "exclusions" (by decide), hother "exclusions" (by decide)]
    exact h.exclusions
  · rw [hother "sort" (by decide), hother "sort" (by decide)]
    exact h.sort

theorem buildQuery_eq (index : Index) (text : Value) :
    index.buildQuery text o = index.buildQuery text o' := by
  have hhas : o.has "per_page" = o'.has "per_page" := by
    rw [Options.has_eq_isSome, Options.has_eq_isSome, h.rest "per_page" (by decide)]
  have hrequest : index.request text o = index.request text o' := by
    rw [Index.request, Index.request, hhas]
    congr 1
    funext perPage
    split
    · exact (h.set (by decide) text).ofOptions_eq
    · exact ((h.set (by decide) perPage).set (by decide) text).ofOptions_eq
  rw [Index.buildQuery, Index.buildQuery, hrequest]

end WrittenAlike

/-- A call without its lists of pairs. -/
def withoutLists (o : Options) : Options :=
  ((o.set "filters" .null).set "exclusions" .null).set "sort" .null

theorem getD_withoutLists (o : Options) (name : String) (d : Value) :
    (withoutLists o).getD name d =
      if name ∈ ["filters", "exclusions", "sort"] then .null else o.getD name d := by
  rw [withoutLists, Options.getD_set, Options.getD_set, Options.getD_set]
  simp only [List.mem_cons, List.not_mem_nil, or_false, eq_comm (b := name)]
  by_cases hsort : name = "sort"
  · simp [hsort]
  · by_cases hexclusions : name = "exclusions"
    · simp [hexclusions]
    · simp [hsort, hexclusions]

/-- The lists of a call are read as what they are shapes of, and all else as without them. -/
theorem readFrom_iff {o : Options} {ps qs : List (String × Value)} {ss : List (String × String)}
    (hfilters : Shape FilterItem (o.getD "filters" .null) ps)
    (hexclusions : Shape FilterItem (o.getD "exclusions" .null) qs)
    (hsort : Shape SortItem (o.getD "sort" .null) ss) (r : Request) :
    ReadFrom o r ↔ r.filters = ps ∧ r.exclusions = qs ∧ r.sort = ss ∧
      ReadFrom (withoutLists o) { r with filters := [], exclusions := [], sort := [] } := by
  have hother (name : String) (hname : name ∉ ["filters", "exclusions", "sort"]) (d : Value) :
      (withoutLists o).getD name d = o.getD name d := by
    rw [getD_withoutLists, if_neg hname]
  constructor
  · intro h
    have hps := h.filters
    rw [field_filters hfilters] at hps
    have hqs := h.exclusions
    rw [field_filters hexclusions] at hqs
    have hss := h.sort
    rw [field_sort hsort] at hss
    refine ⟨(Except.ok.inj (Except.ok.inj hps)).symm, (Except.ok.inj (Except.ok.inj hqs)).symm,
      (Except.ok.inj (Except.ok.inj hss)).symm, ?_⟩
    exact {
      text := hother "text" (by decide) _ ▸ h.text
      fields := hother "fields" (by decide) _ ▸ h.fields
      filters := by rw [getD_withoutLists]; rfl
      exclusions := by rw [getD_withoutLists]; rfl
      sort := by rw [getD_withoutLists]; rfl
      geo := hother "geo" (by decide) _ ▸ h.geo
      geoOrder := hother "geo_order" (by decide) _ ▸ h.geoOrder
      page := hother "page" (by decide) _ ▸ h.page
      perPage := hother "per_page" (by decide) _ ▸ h.perPage }
  · rintro ⟨rfl, rfl, rfl, h⟩
    exact {
      text := hother "text" (by decide) _ ▸ h.text
      fields := hother "fields" (by decide) _ ▸ h.fields
      filters := field_filters hfilters "filters"
      exclusions := field_filters hexclusions "exclusions"
      sort := field_sort hsort "sort"
      geo := hother "geo" (by decide) _ ▸ h.geo
      geoOrder := hother "geo_order" (by decide) _ ▸ h.geoOrder
      page := hother "page" (by decide) _ ▸ h.page
      perPage := hother "per_page" (by decide) _ ▸ h.perPage }

/-- A request depends on its lists of pairs alone and not on the shapes that they are given in, and
so do the bodies that are compiled for it.  In any of the shapes the lists are kept as they are, and
what else there is in the request is made as without them.  The fields of a request, given as
options, make the same request. -/
theorem ofOptions_canonical {o o' : Options} (h : WrittenAlike o o') :
    ofOptions o = ofOptions o' ∧
      (∀ (index : Index) text, index.buildQuery text o = index.buildQuery text o') ∧
      (∀ ps qs ss, Shape FilterItem (o.getD "filters" .null) ps →
        Shape FilterItem (o.getD "exclusions" .null) qs →
        Shape SortItem (o.getD "sort" .null) ss →
        ∀ r, ofOptions o = .ok r ↔ r.filters = ps ∧ r.exclusions = qs ∧ r.sort = ss ∧
          ofOptions (withoutLists o) =
            .ok { r with filters := [], exclusions := [], sort := [] }) ∧
      ∀ r, ofOptions o = .ok r → ofOptions r.toOptions = .ok r := by
  refine ⟨h.ofOptions_eq, h.buildQuery_eq, ?_, ?_⟩
  · intro ps qs ss hfilters hexclusions hsort r
    rw [ofOptions_eq_ok_iff, ofOptions_eq_ok_iff]
    exact readFrom_iff hfilters hexclusions hsort r
  · intro r hr
    exact ofOptions_eq_ok_iff.mpr (ofOptions_eq_ok_iff.mp hr).again

/-- A call whose lists are mixed from pairs, names and mappings. -/
def mixedCall : Options :=
  [("text", .text "ber"),
    ("filters", .list [.tuple [.text "country_id", .text "3"],
      record [("capital", .text "1"), ("lat", .text "52.5")],
      .list [.text "country_id", .text "4"]]),
    ("exclusions", record [("region", .text "5"), ("name", .null)]),
    ("sort", .tuple [.text "name", .list [.text "population", .text "desc"],
      .list [.text "height", .text ""], record [("area", .null)]])]

/-- The same call with its lists in other shapes. -/
def pairedCall : Options :=
  [("text", .text "ber"),
    ("filters", .list [record [("country_id", .text "3")], record [("capital", .text "1")],
      record [("lat", .text "52.5")], record [("country_id", .text "4")]]),
    ("exclusions", .list [.list [.text "region", .text "5"], .list [.text "name", .null]]),
    ("sort", .list [record [("name", .text "asc"), ("population", .text "desc")],
      .text "height", .text "area"])]

/-- The request of both calls. -/
def mixedRequest : Request where
  text := "ber"
  fields := none
  filters := [("country_id", .text "3"), ("capital", .text "1"), ("lat", .text "52.5"),
    ("country_id", .text "4")]
  exclusions := [("region", .text "5"), ("name", .null)]
  sort := [("name", "asc"), ("population", "desc"), ("height", "asc"), ("area", "asc")]
  geo := none
  geoOrder := false
  page := 1
  perPage := 50

/-- A mapping of one name. -/
theorem item_singleton {α : Type} {Reads : Value → α → Prop} {v : Value} {a : α} (name : String)
    (h : Reads v a) : Item Reads (record [(name, v)]) [(name, a)] :=
  .record (List.pairwise_singleton _ _) (.cons ⟨rfl, h⟩ .nil)

theorem filters_mixedCall :
    Shape FilterItem (mixedCall.getD "filters" .null) mixedRequest.filters := by
  have hrecord : FilterItem (record [("capital", .text "1"), ("lat", .text "52.5")])
      [("capital", .text "1"), ("lat", .text "52.5")] :=
    .record (by decide) (List.forall₂_same.mpr fun _ _ => ⟨rfl, rfl⟩)
  exact Shape.list (.cons (Item.tuple _ rfl) (.cons hrecord (.cons (Item.list _ rfl) .nil)))

theorem filters_pairedCall :
    Shape FilterItem (pairedCall.getD "filters" .null) mixedRequest.filters :=
  Shape.list (.cons (item_singleton _ rfl) (.cons (item_singleton _ rfl)
    (.cons (item_singleton _ rfl) (.cons (item_singleton _ rfl) .nil))))

theorem exclusions_mixedCall :
    Shape FilterItem (mixedCall.getD "exclusions" .null) mixedRequest.exclusions :=
  .single (.record (by decide) (List.forall₂_same.mpr fun _ _ => ⟨rfl, rfl⟩)) rfl

theorem exclusions_pairedCall :
    Shape FilterItem (pairedCall.getD "exclusions" .null) mixedRequest.exclusions :=
  Shape.list (.cons (Item.list _ rfl) (.cons (Item.list _ rfl) .nil))

theorem sort_mixedCall :
    Shape SortItem (mixedCall.getD "sort" .null) mixedRequest.sort :=
  Shape.tuple (.cons (SortItem.name _)
    (.cons (SortItem.item (Item.list _ (Directs.text (by decide))))
      (.cons (SortItem.item (Item.list _ (Directs.blank rfl)))
        (.cons (SortItem.item (item_singleton _ (Directs.blank rfl))) .nil))))

theorem sort_pairedCall :
    Shape SortItem (pairedCall.getD "sort" .null) mixedRequest.sort := by
  have hrecord : Item Directs (record [("name", .text "asc"), ("population", .text "desc")])
      [("name", "asc"), ("population", "desc")] :=
    .record (by decide) (.cons ⟨rfl, .text (by decide)⟩ (.cons ⟨rfl, .text (by decide)⟩ .nil))
  exact Shape.list (.cons (SortItem.item hrecord)
    (.cons (SortItem.name _) (.cons (SortItem.name _) .nil)))

theorem writtenAlike_mixedCall : WrittenAlike mixedCall pairedCall where
  rest := by
    intro name hname
    simp only [List.mem_cons, List.not_mem_nil, or_false, not_or] at hname
    obtain ⟨hfilters, hexclusions, hsort⟩ := hname
    simp only [mixedCall, pairedCall, Options.get?_cons, if_neg (Ne.symm hfilters),
      if_neg (Ne.symm hexclusions), if_neg (Ne.symm hsort)]
  filters := Or.inr ⟨_, filters_mixedCall, filters_pairedCall⟩
  exclusions := Or.inr ⟨_, exclusions_mixedCall, exclusions_pairedCall⟩
  sort := Or.inr ⟨_, sort_mixedCall, sort_pairedCall⟩

/-- The mixed call and the one in other shapes make one request, which makes itself again. -/
theorem ofOptions_canonical_mixedCall : WrittenAlike mixedCall pairedCall ∧
    ofOptions mixedCall = .ok mixedRequest ∧ ofOptions pairedCall = .ok mixedRequest ∧
    ofOptions mixedRequest.toOptions = .ok mixedRequest := by
  obtain ⟨heq, _, hread, hagain⟩ := ofOptions_canonical writtenAlike_mixedCall
  have hbare : ofOptions (withoutLists mixedCall) =
      .ok { mixedRequest with filters := [], exclusions := [], sort := [] } := rfl
  have hmixed : ofOptions mixedCall = .ok mixedRequest :=
    (hread _ _ _ filters_mixedCall exclusions_mixedCall sort_mixedCall mixedRequest).mpr
      ⟨rfl, rfl, rfl, hbare⟩
  exact ⟨writtenAlike_mixedCall, hmixed, heq ▸ hmixed, hagain _ hmixed⟩

end Request

end Typeahead
