import Typeahead.Proofs.Search.Limits

/-!
# Sorting by distance

A point to sort by comes with a request or out of its filters.  `Request.BringsComplete` and
`Request.Supplies` say when either has both coordinates; of several values for one coordinate the
last counts.  `Request.SortsBy` says which point a compiled body is sorted by: a point that comes
with the request shuts out the filters, also when one of its own coordinates is missing.  Then the
coordinates are taken out of the filters and used for nothing.
-/

namespace Typeahead

namespace GeoPoint

variable {lat lon v w : Value} {name : String} {p : GeoPoint}

theorem presence_of_present (h : present v = true) : presence v = v := by
  rw [presence, if_pos h]

theorem present_presence (v : Value) : present (presence v) = present v := by
  rw [presence]
  split
  · rfl
  · next hblank => exact (Bool.not_eq_true _ ▸ hblank).symm

/-- Reading a coordinate makes none up and loses none. -/
theorem present_of_readCoordinate (h : readCoordinate name v = .ok w) : present w = present v := by
  cases v with
  | null | bool _ | int _ | float _ | text _ =>
      obtain rfl := Except.ok.inj h
      rfl
  | _ => cases h

theorem isComplete_of_read (h : read lat lon = .ok p) :
    p.isComplete = (present lat && present lon) := by
  obtain ⟨hlat, hlon⟩ := read_eq_ok h
  rw [isComplete, present_of_readCoordinate hlat, present_of_readCoordinate hlon]

/-- The text that the backend sorts by. -/
def pair (p : GeoPoint) : String := p.lat.plain ++ "," ++ p.lon.plain

end GeoPoint

/-- Whether the hits of a body come in the order of their distance. -/
def SearchBody.SortedByDistance (body : SearchBody) : Prop :=
  ∃ geoField point rest, body.sort = .distance geoField point :: rest

namespace Request

/-- The last value that the filters give a name. -/
def GivesLast (r : Request) (name : String) (v : Value) : Prop :=
  ∃ before after, r.filters = before ++ (name, v) :: after ∧ ∀ f ∈ after, f.1 ≠ name

/-- Whether the request comes with a complete point. -/
def BringsComplete (r : Request) (p : GeoPoint) : Prop :=
  r.geo = some p ∧ p.isComplete = true

/-- Whether the filters supply both coordinates: they are asked for them, and neither is blank. -/
structure Supplies (r : Request) (lat lon : Value) : Prop where
  asked : r.geoOrder = true
  given : r.GivesLast "lat" lat ∧ r.GivesLast "lon" lon
  present : GeoPoint.present lat = true ∧ GeoPoint.present lon = true

/-- The point that a request is sorted by. -/
inductive SortsBy (r : Request) : GeoPoint → Prop
  | brought {p : GeoPoint} (h : r.BringsComplete p) : SortsBy r p
  | supplied {lat lon : Value} {p : GeoPoint} (hgeo : r.geo = none) (h : r.Supplies lat lon)
      (hread : GeoPoint.read lat lon = .ok p) : SortsBy r p

variable {r : Request} {name : String} {v lat lon : Value} {p : GeoPoint}

theorem givesLast_iff : r.GivesLast name v ↔
    (r.filters.reverse.find? fun f => f.1 == name) = some (name, v) := by
  rw [List.find?_eq_some_iff_append]
  constructor
  · rintro ⟨before, after, hfilters, hafter⟩
    refine ⟨beq_self_eq_true name, after.reverse, before.reverse, by simp [hfilters], ?_⟩
    simpa using hafter
  · rintro ⟨_, after, before, hfilters, hafter⟩
    refine ⟨before.reverse, after.reverse, ?_, by simpa using hafter⟩
    rw [List.reverse_eq_iff.mp hfilters]
    simp

theorem extracted_of_givesLast (h : r.GivesLast name v) :
    r.extracted name = GeoPoint.presence v := by
  rw [extracted, givesLast_iff.mp h]
  rfl

/-- A coordinate comes out of the filters when the last value given to it is there. -/
theorem exists_givesLast (h : GeoPoint.present (r.extracted name) = true) :
    r.GivesLast name (r.extracted name) := by
  have hpresent := h
  rw [extracted, GeoPoint.present_presence] at hpresent
  rw [extracted, GeoPoint.presence_of_present hpresent]
  cases hfound : r.filters.reverse.find? fun f => f.1 == name with
  | none =>
      rw [hfound] at hpresent
      cases hpresent
  | some f =>
      have hname : f.1 = name := by simpa using List.find?_some hfound
      rw [givesLast_iff, hfound, ← hname]
      rfl

theorem supplies_iff : r.Supplies lat lon ↔ r.geoOrder = true ∧
    (r.extracted "lat" = lat ∧ r.extracted "lon" = lon) ∧
      GeoPoint.present lat = true ∧ GeoPoint.present lon = true := by
  constructor
  · rintro ⟨hasked, ⟨hlat, hlon⟩, hpresent⟩
    refine ⟨hasked, ⟨?_, ?_⟩, hpresent⟩
    · rw [extracted_of_givesLast hlat, GeoPoint.presence_of_present hpresent.1]
    · rw [extracted_of_givesLast hlon, GeoPoint.presence_of_present hpresent.2]
  · rintro ⟨hasked, ⟨rfl, rfl⟩, hpresent⟩
    exact ⟨hasked, ⟨exists_givesLast hpresent.1, exists_givesLast hpresent.2⟩, hpresent⟩

/-- A request is sorted by its point when that is complete. -/
theorem sortsBy_iff {point : Option GeoPoint} (h : r.point = .ok point) :
    r.SortsBy p ↔ point = some p ∧ p.isComplete = true := by
  cases hgeo : r.geo with
  | some q =>
      obtain rfl := Except.ok.inj ((point_of_geo hgeo).symm.trans h)
      constructor
      · rintro (⟨hbrought, hcomplete⟩ | ⟨hnone, _, _⟩)
        · exact ⟨hgeo ▸ hbrought, hcomplete⟩
        · cases hgeo.symm.trans hnone
      · rintro ⟨hpoint, hcomplete⟩
        exact .brought ⟨hgeo.trans hpoint, hcomplete⟩
  | none =>
      rw [point_eq_ok_iff hgeo] at h
      constructor
      · rintro (⟨hbrought, _⟩ | ⟨_, hsupplies, hread⟩)
        · cases hgeo.symm.trans hbrought
        · obtain ⟨hasked, ⟨rfl, rfl⟩, hpresent⟩ := supplies_iff.mp hsupplies
          rw [if_pos hasked] at h
          obtain ⟨q, hq, rfl⟩ := h
          obtain rfl := Except.ok.inj (hread.symm.trans hq)
          refine ⟨rfl, ?_⟩
          rw [GeoPoint.isComplete_of_read hread, hpresent.1, hpresent.2, Bool.and_self]
      · rintro ⟨rfl, hcomplete⟩
        split at h
        · next hasked =>
          obtain ⟨q, hread, hq⟩ := h
          obtain rfl := Option.some.inj hq
          rw [GeoPoint.isComplete_of_read hread, Bool.and_eq_true] at hcomplete
          exact .supplied hgeo (supplies_iff.mpr ⟨hasked, ⟨rfl, rfl⟩, hcomplete⟩) hread
        · cases h

/-- A body is sorted by a point unless a point that the request brings shuts out what its filters
supply. -/
theorem exists_sortsBy_iff {point : Option GeoPoint} (h : r.point = .ok point) :
    (∃ p, r.SortsBy p) ↔
      (∃ p, r.BringsComplete p) ∨ (r.geo = none ∧ ∃ lat lon, r.Supplies lat lon) := by
  constructor
  · rintro ⟨p, hbrought | ⟨hgeo, hsupplies, _⟩⟩
    · exact .inl ⟨p, hbrought⟩
    · exact .inr ⟨hgeo, _, _, hsupplies⟩
  · rintro (⟨p, hbrought⟩ | ⟨hgeo, lat, lon, hsupplies⟩)
    · exact ⟨p, .brought hbrought⟩
    · obtain ⟨hasked, ⟨rfl, rfl⟩, _⟩ := supplies_iff.mp hsupplies
      rw [point_eq_ok_iff hgeo, if_pos hasked] at h
      obtain ⟨p, hread, _⟩ := h
      exact ⟨p, .supplied hgeo hsupplies hread⟩

section Compiled

variable {typeOf : Value → Except Failure Value} {defaults : List Value} {geoField : Value}
  {body : SearchBody}

/-- One entry for a complete point, none otherwise. -/
theorem distance_of_distanceSort {point : Option GeoPoint} {distance : List SortEntry}
    (h : distanceSort geoField point = .ok distance) :
    distance = ((point.filter GeoPoint.isComplete).map fun p =>
      SortEntry.distance geoField p.pair).toList := by
  cases point with
  | none => exact (Except.ok.inj h).symm
  | some p =>
      rw [distanceSort] at h
      cases hcomplete : p.isComplete with
      | false =>
          rw [hcomplete] at h
          simpa [Option.filter, hcomplete] using (Except.ok.inj h).symm
      | true =>
          rw [hcomplete, if_pos rfl] at h
          simp only [Outcome.bind_eq_ok_iff] at h
          obtain ⟨lat, hlat, lon, hlon, h⟩ := h
          split at h
          · obtain rfl := (Outcome.pure_eq_ok_iff _ _).mp h
            obtain ⟨_, rfl⟩ := (Value.plain?_eq_ok_iff _ _).mp hlat
            obtain ⟨_, rfl⟩ := (Value.plain?_eq_ok_iff _ _).mp hlon
            simp [Option.filter, hcomplete, GeoPoint.pair]
          · cases h

theorem sort_of_compile (h : r.compile defaults typeOf geoField = .ok body) :
    ∃ point distance, r.point = .ok point ∧ distanceSort geoField point = .ok distance ∧
      body.sort = distance ++ r.sort.map fun s => .by s.1 s.2 := by
  obtain ⟨point, _, distance, hpoint, _, hdistance, _, rfl⟩ := compile_eq_ok_iff.mp h
  exact ⟨point, distance, hpoint, hdistance, rfl⟩

/-- One entry to sort by for a point, in front of what the request asks for. -/
theorem sort_eq (h : r.compile defaults typeOf geoField = .ok body) :
    (∃ p, r.SortsBy p ∧
        body.sort = .distance geoField p.pair :: r.sort.map fun s => .by s.1 s.2) ∨
      (∀ p, ¬ r.SortsBy p) ∧ body.sort = r.sort.map fun s => .by s.1 s.2 := by
  obtain ⟨point, distance, hpoint, hdistance, hsort⟩ := sort_of_compile h
  have hsorts (p : GeoPoint) : r.SortsBy p ↔ point.filter GeoPoint.isComplete = some p := by
    rw [sortsBy_iff hpoint, Option.filter_eq_some_iff]
  rw [hsort, distance_of_distanceSort hdistance]
  cases hfound : point.filter GeoPoint.isComplete with
  | none =>
      refine .inr ⟨fun p hp => ?_, rfl⟩
      cases hfound.symm.trans ((hsorts p).mp hp)
  | some p => exact .inl ⟨p, (hsorts p).mpr hfound, rfl⟩

theorem sortedByDistance_iff (h : r.compile defaults typeOf geoField = .ok body) :
    body.SortedByDistance ↔ ∃ p, r.SortsBy p := by
  rcases sort_eq h with ⟨p, hp, hsort⟩ | ⟨hnone, hsort⟩
  · exact ⟨fun _ => ⟨p, hp⟩, fun _ => ⟨geoField, p.pair, _, hsort⟩⟩
  · constructor
    · rintro ⟨_, _, _, hdistance⟩
      rw [hsort] at hdistance
      obtain ⟨_, _, _, hcriterion, _⟩ := List.map_eq_cons_iff.mp hdistance
      cases hcriterion
    · rintro ⟨p, hp⟩
      exact absurd hp (hnone p)

/-- The clause that an inclusion becomes: zeros are left out of its terms. -/
def IncludedAs (typeOf : Value → Except Failure Value) (f : String × Value) (q : Query) : Prop :=
  ∃ fieldType values, typeOf (.text f.1) = .ok fieldType ∧
    Terms.ofOperand false fieldType f.2 = .ok values ∧ q = .terms f.1 values

/-- The clause that an exclusion becomes: zeros stay among its terms. -/
def ExcludedAs (typeOf : Value → Except Failure Value) (f : String × Value) (q : Query) : Prop :=
  ∃ fieldType values, typeOf (.text f.1) = .ok fieldType ∧
    Terms.ofOperand true fieldType f.2 = .ok values ∧
    q = .compound none [] (some (.terms f.1 values))

/-- Every filter that is kept and every exclusion becomes one clause, in their order. -/
theorem clauses_of_compile (h : r.compile defaults typeOf geoField = .ok body) :
    ∃ included excluded, body.query = combine (r.textCondition defaults) (included ++ excluded) ∧
      List.Forall₂ (IncludedAs typeOf) r.inclusions included ∧
      List.Forall₂ (ExcludedAs typeOf) r.exclusions excluded := by
  obtain ⟨qs, hqs, hquery⟩ := query_of_compile h
  simp only [clauses, Outcome.bind_eq_ok_iff, Outcome.mapM_eq_ok_iff,
    Outcome.pure_eq_ok_iff] at hqs
  obtain ⟨included, hincluded, excluded, hexcluded, rfl⟩ := hqs
  refine ⟨included, excluded, hquery, ?_, ?_⟩
  · exact hincluded.imp fun f q => (inclusionClause_eq_ok_iff f q).mp
  · exact hexcluded.imp fun f q => (exclusionClause_eq_ok_iff f q).mp

theorem inclusions_eq (r : Request) : r.inclusions =
    if r.geoOrder then r.filters.filter fun f => f.1 ≠ "lat" ∧ f.1 ≠ "lon" else r.filters := by
  have hcoordinate : (fun f : String × Value => !isCoordinate f) =
      fun f => decide (f.1 ≠ "lat" ∧ f.1 ≠ "lon") := by
    funext f
    simp [isCoordinate, Bool.beq_eq_decide_eq]
  rw [inclusions, hcoordinate]

/-- Clauses of filters name the fields of these. -/
theorem exists_of_terms_mem {fs : List (String × Value)} {qs : List Query} {field : String}
    {values : List Value} (h : List.Forall₂ (IncludedAs typeOf) fs qs)
    (hq : .terms field values ∈ qs) : ∃ f ∈ fs, f.1 = field := by
  induction h with
  | nil => cases hq
  | @cons f q fs qs hclause _ ih =>
      rcases List.mem_cons.mp hq with rfl | hq
      · obtain ⟨_, _, _, _, heq⟩ := hclause
        cases heq
        exact ⟨f, List.mem_cons_self, rfl⟩
      · obtain ⟨f', hf', hname⟩ := ih hq
        exact ⟨f', List.mem_cons_of_mem f hf', hname⟩

/-- How the coordinates of a request are used.  With geo order no clause of an inclusion is on one
of them, and all other filters become clauses in their order.  The body is sorted as the request
asks, after its distance to one point when there is a complete one; a point of the request goes
before that of the filters.  Coordinates that leave the filters are lost only where the request
brings a point of its own that is not complete. -/
theorem compile_sorted_by_distance (h : r.compile defaults typeOf geoField = .ok body) :
    (∃ included excluded,
      body.query = combine (r.textCondition defaults) (included ++ excluded) ∧
      List.Forall₂ (IncludedAs typeOf)
        (if r.geoOrder then r.filters.filter fun f => f.1 ≠ "lat" ∧ f.1 ≠ "lon" else r.filters)
        included ∧
      List.Forall₂ (ExcludedAs typeOf) r.exclusions excluded ∧
      (r.geoOrder = true → ∀ field values, .terms field values ∈ included →
        field ≠ "lat" ∧ field ≠ "lon")) ∧
    ((∃ p, r.SortsBy p ∧
        body.sort = .distance geoField p.pair :: r.sort.map fun s => .by s.1 s.2) ∨
      (∀ p, ¬ r.SortsBy p) ∧ body.sort = r.sort.map fun s => .by s.1 s.2) ∧
    ((body.SortedByDistance ↔ (∃ p, r.BringsComplete p) ∨ ∃ lat lon, r.Supplies lat lon) ↔
      ¬ ((∃ p, r.geo = some p ∧ p.isComplete = false) ∧ ∃ lat lon, r.Supplies lat lon)) := by
  refine ⟨?_, sort_eq h, ?_⟩
  · obtain ⟨included, excluded, hquery, hincluded, hexcluded⟩ := clauses_of_compile h
    rw [inclusions_eq] at hincluded
    refine ⟨included, excluded, hquery, hincluded, hexcluded, fun hasked field values hq => ?_⟩
    rw [if_pos hasked] at hincluded
    obtain ⟨f, hf, rfl⟩ := exists_of_terms_mem hincluded hq
    simpa using (List.mem_filter.mp hf).2
  · obtain ⟨point, _, hpoint, _⟩ := sort_of_compile h
    rw [sortedByDistance_iff h, exists_sortsBy_iff hpoint]
    cases hgeo : r.geo with
    | none => simp [BringsComplete, hgeo]
    | some p =>
        cases hcomplete : p.isComplete with
        | false => simp [BringsComplete, hgeo, hcomplete]
        | true => simp [BringsComplete, hgeo, hcomplete]

end Compiled

/-- A request with two latitudes among its filters, the last of them zero, and a sort order. -/
def equatorRequest : Request where
  text := ""
  fields := none
  filters := [("lat", .text "52.5"), ("country_id", .text "4"), ("lat", .int 0),
    ("lon", .text "8.25")]
  exclusions := []
  sort := [("name", "asc")]
  geo := none
  geoOrder := true
  page := 1
  perPage := 50

/-- The body of `equatorRequest`. -/
def equatorBody : SearchBody where
  query := .compound none [.terms "country_id" [.int 4]] none
  sort := [.distance (.text "lat_lon") "0,8.25", .by "name" "asc"]
  offset := 0
  size := 50

theorem compile_equatorRequest :
    equatorRequest.compile [.text "name"] crowdedTypes (.text "lat_lon") = .ok equatorBody := by
  have hpoint : equatorRequest.point = .ok (some ⟨.int 0, .text "8.25"⟩) := rfl
  have hclauses : equatorRequest.clauses crowdedTypes = .ok [.terms "country_id" [.int 4]] := rfl
  have hdistance : distanceSort (.text "lat_lon") (some ⟨.int 0, .text "8.25"⟩) =
      .ok [.distance (.text "lat_lon") "0,8.25"] := by
    rw [distanceSort_eq_ok_iff, if_pos (by rfl)]
    exact ⟨⟨by decide +kernel, rfl⟩, rfl⟩
  have hwritable : equatorBody.toValue.isWritable = true := by decide +kernel
  exact compile_eq_ok_iff.mpr ⟨_, _, _, hpoint, hclauses, hdistance, hwritable, rfl⟩

/-- The last latitude is the one that is sorted by. -/
theorem compile_sorted_by_distance_equatorRequest :
    equatorRequest.compile [.text "name"] crowdedTypes (.text "lat_lon") = .ok equatorBody ∧
      equatorRequest.Supplies (.int 0) (.text "8.25") ∧ equatorBody.SortedByDistance := by
  have hsupplies : equatorRequest.Supplies (.int 0) (.text "8.25") :=
    supplies_iff.mpr ⟨rfl, ⟨rfl, rfl⟩, rfl, rfl⟩
  obtain ⟨_, _, hsorted⟩ := compile_sorted_by_distance compile_equatorRequest
  have hnone : ¬ ∃ p, equatorRequest.geo = some p ∧ p.isComplete = false := nofun
  exact ⟨compile_equatorRequest, hsupplies,
    (hsorted.mpr fun hboth => hnone hboth.1).mpr (.inr ⟨_, _, hsupplies⟩)⟩

/-- A call that brings half a point, with a whole one among its filters. -/
def halfPointOptions : Options :=
  [("geo", .dict [(.text "lat", .text "52.5")]), ("geo_order", .bool true),
    ("filters", .list [.list [.text "lat", .text "47.5"], .list [.text "lon", .text "8.25"],
      .list [.text "country_id", .text "4"]])]

/-- The request of `halfPointOptions`. -/
def halfPointRequest : Request where
  text := ""
  fields := none
  filters := [("lat", .text "47.5"), ("lon", .text "8.25"), ("country_id", .text "4")]
  exclusions := []
  sort := []
  geo := some ⟨.text "52.5", .null⟩
  geoOrder := true
  page := 1
  perPage := 50

/-- Coordinates that are neither filtered nor sorted by. -/
theorem exists_coordinates_dropped :
    ofOptions halfPointOptions = .ok halfPointRequest ∧
      halfPointRequest.Supplies (.text "47.5") (.text "8.25") ∧
      (¬ ∃ p, halfPointRequest.BringsComplete p) ∧
      halfPointRequest.compile [.text "name"] crowdedTypes (.text "lat_lon") =
        .ok ⟨.compound none [.terms "country_id" [.int 4]] none, [], 0, 50⟩ := by
  refine ⟨rfl, supplies_iff.mpr ⟨rfl, ⟨rfl, rfl⟩, rfl, rfl⟩, ?_, ?_⟩
  · rintro ⟨_, hgeo, hcomplete⟩
    obtain rfl := Option.some.inj hgeo
    cases hcomplete
  · have hclauses : halfPointRequest.clauses crowdedTypes =
        .ok [.terms "country_id" [.int 4]] := rfl
    have hpoint : halfPointRequest.point = .ok (some ⟨.text "52.5", .null⟩) := rfl
    exact compile_eq_ok_iff.mpr ⟨_, _, [], hpoint, hclauses, rfl, by decide +kernel, rfl⟩

end Request

end Typeahead
