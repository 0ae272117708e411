import Typeahead.Proofs.Check
import Typeahead.Proofs.Search.Blanks
import Typeahead.Proofs.Terms.Limits

/-!
# Requests that are too long

A valid request with plain operands is compiled unless a number in it has more digits than can be
read or written.  `Request.InLimits` says which numbers count: the window of its page, the
coordinates of the point that it is sorted by, and the numbers in its operands.
-/

namespace Typeahead

open Value

namespace GeoPoint

theorem isSingle_of_readCoordinate {name : String} {v w : Value}
    (h : readCoordinate name v = .ok w) : w.IsSingle := by
  cases v with
  | null | bool _ | int _ | float _ | text _ =>
      obtain rfl := Except.ok.inj h
      trivial
  | _ => cases h

theorem readCoordinate_of_isSingle (name : String) {v : Value} (h : v.IsSingle) :
    ∃ w, readCoordinate name v = .ok w := by
  cases v with
  | null | bool _ | int _ | float _ | text _ => exact ⟨_, rfl⟩
  | _ => cases h

/-- The coordinates of a point that was read. -/
theorem read_eq_ok {lat lon : Value} {p : GeoPoint} (h : read lat lon = .ok p) :
    readCoordinate "lat" lat = .ok p.lat ∧ readCoordinate "lon" lon = .ok p.lon := by
  rw [read] at h
  split at h
  · next hlat hlon =>
    obtain rfl := Except.ok.inj h
    exact ⟨hlat, hlon⟩
  · cases h

/-- The coordinates of a point are single values. -/
structure IsSingle (p : GeoPoint) : Prop where
  lat : p.lat.IsSingle
  lon : p.lon.IsSingle

theorem isSingle_of_read {lat lon : Value} {p : GeoPoint} (h : read lat lon = .ok p) :
    p.IsSingle :=
  ⟨isSingle_of_readCoordinate (read_eq_ok h).1, isSingle_of_readCoordinate (read_eq_ok h).2⟩

theorem exists_read {lat lon : Value} (hlat : lat.IsSingle) (hlon : lon.IsSingle) :
    ∃ p, read lat lon = .ok p := by
  obtain ⟨a, ha⟩ := readCoordinate_of_isSingle "lat" hlat
  obtain ⟨b, hb⟩ := readCoordinate_of_isSingle "lon" hlon
  refine ⟨⟨a, b⟩, ?_⟩
  rw [read, ha, hb]

theorem isSingle_of_ofValue {field : String} {v : Value} {p : GeoPoint}
    (h : ofValue field v = .ok p) : p.IsSingle := by
  cases v with
  | dict entries =>
      rw [ofValue] at h
      split at h
      · next hread =>
        obtain rfl := Except.ok.inj h
        exact isSingle_of_read hread
      · cases h
  | _ => cases h

theorem isSingle_presence {v : Value} (h : v.IsSingle) : (presence v).IsSingle := by
  rw [presence]
  split
  · exact h
  · trivial

/-- Whether a coordinate of a complete point has more digits than can be written. -/
def IsTooLong (p : GeoPoint) : Prop :=
  p.isComplete = true ∧
    ∃ n, (p.lat = .int n ∨ p.lon = .int n) ∧ Numeral.exceedsLimit n = true

theorem isWritable_iff {p : GeoPoint} (h : p.IsSingle) (hcomplete : p.isComplete = true) :
    p.lat.isWritable = true ∧ p.lon.isWritable = true ↔ ¬ p.IsTooLong := by
  rw [h.lat.isWritable_iff, h.lon.isWritable_iff, IsTooLong]
  simp only [hcomplete, true_and, not_exists, not_and, or_imp, forall_and, Bool.not_eq_true]

end GeoPoint

namespace Entries

theorem entriesWritable_insert {entries : Entries} {key value : Value}
    (h : entriesWritable entries = true) (hkey : key.isWritable = true)
    (hvalue : value.isWritable = true) : entriesWritable (insert entries key value) = true := by
  induction entries with
  | nil => simp [insert, entriesWritable, hkey, hvalue]
  | cons e entries ih =>
      simp only [entriesWritable, Bool.and_eq_true] at h
      rw [insert]
      split
      · simp [entriesWritable, h, hvalue]
      · simp [entriesWritable, h, ih h.2]

/-- A mapping of writable keys and values can be written down. -/
theorem entriesWritable_ofList {entries : List (Value × Value)}
    (h : ∀ e ∈ entries, e.1.isWritable = true ∧ e.2.isWritable = true) :
    entriesWritable (ofList entries) = true := by
  have hfold (acc : Entries) (hacc : entriesWritable acc = true) :
      entriesWritable (entries.foldl (fun acc e => insert acc e.1 e.2) acc) = true := by
    induction entries generalizing acc with
    | nil => exact hacc
    | cons e entries ih =>
        obtain ⟨hkey, hvalue⟩ := h e List.mem_cons_self
        exact ih (fun e' he' => h e' (List.mem_cons_of_mem e he')) _
          (entriesWritable_insert hacc hkey hvalue)
  exact hfold [] rfl

end Entries

namespace Request

section Clauses

variable {typeOf : Value → Except Failure Value}
  (htype : ∀ field : String, ∃ t, typeOf (.text field) = .ok t)

include htype

theorem exists_terms_iff (allowZero : Bool) {f : String × Value} (hf : f.2.IsPlain) :
    (∃ t values, typeOf (.text f.1) = .ok t ∧ Terms.ofOperand allowZero t f.2 = .ok values ∧
      areWritable values = true) ↔ ¬ Terms.TooLong f.2 := by
  obtain ⟨t, ht⟩ := htype f.1
  rw [← Terms.exists_areWritable_iff allowZero t hf]
  constructor
  · rintro ⟨t', values, ht', hvalues, hwritable⟩
    obtain rfl := Except.ok.inj (ht.symm.trans ht')
    exact ⟨values, hvalues, hwritable⟩
  · rintro ⟨values, hvalues, hwritable⟩
    exact ⟨t, values, ht, hvalues, hwritable⟩

/-- All plain operands have clauses when none of them is too long. -/
theorem forall_hasClause_iff {r : Request}
    (hplain : ∀ f ∈ r.filters ++ r.exclusions, f.2.IsPlain) :
    ((∀ f ∈ r.inclusions, HasClause (inclusionClause typeOf) f) ∧
        ∀ f ∈ r.exclusions, HasClause (exclusionClause typeOf) f) ↔
      ∀ f ∈ r.inclusions ++ r.exclusions, ¬ Terms.TooLong f.2 := by
  rw [List.forall_mem_append] at hplain
  have hin : ∀ f ∈ r.inclusions, HasClause (inclusionClause typeOf) f ↔ ¬ Terms.TooLong f.2 := by
    intro f hf
    rw [hasClause_inclusion_iff,
      exists_terms_iff htype false (hplain.1 f ((mem_inclusions_iff r f).mp hf).1)]
  have hex : ∀ f ∈ r.exclusions, HasClause (exclusionClause typeOf) f ↔ ¬ Terms.TooLong f.2 := by
    intro f hf
    rw [hasClause_exclusion_iff, exists_terms_iff htype true (hplain.2 f hf)]
  rw [List.forall_mem_append, forall₂_congr hin, forall₂_congr hex]

end Clauses

/-- The coordinates among the filters are single values where they are sorted by. -/
def SortsBySingle (r : Request) : Prop :=
  r.geoOrder = true → r.geo = none → ∀ f ∈ r.filters, isCoordinate f = true → f.2.IsSingle

variable {r : Request}

theorem isSingle_extracted (h : ∀ f ∈ r.filters, isCoordinate f = true → f.2.IsSingle)
    {name : String} (hname : name = "lat" ∨ name = "lon") : (r.extracted name).IsSingle := by
  refine GeoPoint.isSingle_presence ?_
  cases hfound : r.filters.reverse.find? fun f => f.1 == name with
  | none => trivial
  | some f =>
      have hf : f.1 = name := by simpa using List.find?_some hfound
      refine h f (List.mem_reverse.mp (List.mem_of_find?_eq_some hfound)) ?_
      rw [isCoordinate, hf]
      rcases hname with rfl | rfl
      · rfl
      · rfl

theorem point_of_geo {p : GeoPoint} (h : r.geo = some p) : r.point = .ok (some p) := by
  rw [point, h]

/-- A request without a point of its own has that of its filters, if it is to be sorted by it. -/
theorem point_eq_ok_iff (h : r.geo = none) {q : Option GeoPoint} : r.point = .ok q ↔
    if r.geoOrder then
      ∃ p, GeoPoint.read (r.extracted "lat") (r.extracted "lon") = .ok p ∧ q = some p
    else q = none := by
  rw [point, h]
  dsimp only
  split
  · cases GeoPoint.read (r.extracted "lat") (r.extracted "lon") with
    | error es => simp [Except.map]
    | ok p => simp [Except.map, eq_comm]
  · simp [eq_comm]

/-- There is a point to sort by, or none is needed. -/
theorem exists_point (h : r.SortsBySingle) : ∃ p, r.point = .ok p := by
  cases hgeo : r.geo with
  | some p => exact ⟨some p, point_of_geo hgeo⟩
  | none =>
      simp only [point_eq_ok_iff hgeo]
      split
      · next horder =>
        have hsingle := h horder hgeo
        obtain ⟨p, hp⟩ := GeoPoint.exists_read (isSingle_extracted hsingle (Or.inl rfl))
          (isSingle_extracted hsingle (Or.inr rfl))
        exact ⟨some p, p, hp, rfl⟩
      · exact ⟨none, rfl⟩

theorem isSingle_of_geo {options : Options} (h : ofOptions options = .ok r) {p : GeoPoint}
    (hp : r.geo = some p) : p.IsSingle := by
  rcases Check.optional_eq_ok (ofOptions_eq_ok_iff.mp h).geo with ⟨_, hnone⟩ | ⟨q, hq, hread⟩
  · cases hnone.symm.trans hp
  · obtain rfl := Option.some.inj (hq.symm.trans hp)
    exact GeoPoint.isSingle_of_ofValue hread

/-- The point of a valid request has single values for coordinates. -/
theorem isSingle_of_point {options : Options} (h : ofOptions options = .ok r) {p : GeoPoint}
    (hp : r.point = .ok (some p)) : p.IsSingle := by
  cases hgeo : r.geo with
  | some q =>
      rw [point_of_geo hgeo] at hp
      obtain rfl := Option.some.inj (Except.ok.inj hp)
      exact isSingle_of_geo h hgeo
  | none =>
      rw [point_eq_ok_iff hgeo] at hp
      split at hp
      · obtain ⟨q, hread, hq⟩ := hp
        obtain rfl := Option.some.inj hq
        exact GeoPoint.isSingle_of_read hread
      · cases hp

theorem distanceSort_eq_ok_iff (p : GeoPoint) (geoField : String) (distance : List SortEntry) :
    distanceSort (.text geoField) (some p) = .ok distance ↔
      if p.isComplete then (p.lat.isWritable = true ∧ p.lon.isWritable = true) ∧
        [.distance (.text geoField) (p.lat.plain ++ "," ++ p.lon.plain)] = distance
      else [] = distance := by
  rw [distanceSort]
  split
  · rw [plain?, plain?]
    cases p.lat.isWritable with
    | false => simp [Bind.bind, Except.bind]
    | true =>
        cases p.lon.isWritable with
        | false => simp [Bind.bind, Except.bind]
        | true => simp [Bind.bind, Except.bind, Pure.pure, Except.pure, isKey]
  · simp

/-- The distance to a point can be asked for unless a coordinate is too long. -/
theorem exists_distanceSort_iff {p : GeoPoint} (hp : p.IsSingle) (geoField : String) :
    (∃ distance, distanceSort (.text geoField) (some p) = .ok distance) ↔ ¬ p.IsTooLong := by
  simp only [distanceSort_eq_ok_iff]
  split
  · next hcomplete => simp [GeoPoint.isWritable_iff hp hcomplete]
  · next hcomplete => simp [GeoPoint.IsTooLong, hcomplete]

/-- A sort order can be written down: all in it is text. -/
theorem areWritable_sort {p : Option GeoPoint} {geoField : String} {distance : List SortEntry}
    (h : distanceSort (.text geoField) p = .ok distance) (sort : List (String × String)) :
    areWritable ((distance ++ sort.map fun s => SortEntry.by s.1 s.2).map SortEntry.toValue) =
      true := by
  have hshape : ∀ e ∈ distance, ∃ point, e = .distance (.text geoField) point := by
    intro e he
    cases p with
    | none =>
        obtain rfl := Except.ok.inj h
        cases he
    | some p =>
        rw [distanceSort_eq_ok_iff] at h
        split at h
        · rw [← h.2] at he
          exact ⟨_, List.mem_singleton.mp he⟩
        · rw [← h] at he
          cases he
  rw [areWritable_iff]
  intro v hv
  obtain ⟨e, he, rfl⟩ := List.mem_map.mp hv
  rcases List.mem_append.mp he with he | he
  · obtain ⟨point, rfl⟩ := hshape e he
    have hentries : entriesWritable (Entries.ofList [(.text geoField, .text point),
        (.text "order", .text "asc"), (.text "unit", .text "km")]) = true :=
      Entries.entriesWritable_ofList (by simp [isWritable])
    simp [SortEntry.toValue, isWritable, entriesWritable, hentries]
  · obtain ⟨s, _, rfl⟩ := List.mem_map.mp he
    rfl

/-- Whether the numbers of a request have no more digits than can be read and written. -/
structure InLimits (r : Request) : Prop where
  /-- The window of the page. -/
  window : Numeral.exceedsLimit r.offset = false ∧ Numeral.exceedsLimit r.perPage = false
  /-- The point to sort by. -/
  point : ∀ p, r.point = .ok (some p) → ¬ p.IsTooLong
  /-- The operands. -/
  operands : ∀ f ∈ r.inclusions ++ r.exclusions, ¬ Terms.TooLong f.2

/-- The text of a request can always be written down. -/
theorem isWritable_textCondition (names : List String) (r : Request) :
    ∀ q ∈ r.textCondition (names.map .text), q.toValue.isWritable = true := by
  have hfields : areWritable (r.searchedFields (names.map .text)) = true := by
    rw [searchedFields_eq]
    split
    · exact areWritable_texts names
    · exact areWritable_texts _
  intro q hq
  rw [textCondition] at hq
  split at hq
  · cases hq
  · obtain rfl := Option.some.inj hq
    simp [Query.toValue, isWritable, entriesWritable, hfields]

/-- What a request needs besides its clauses, it has unless a number is too long. -/
theorem framed_iff {options : Options} (h : ofOptions options = .ok r) (hsingle : r.SortsBySingle)
    (names : List String) (geoField : String) :
    Framed (names.map .text) (.text geoField) r ↔
      (Numeral.exceedsLimit r.offset = false ∧ Numeral.exceedsLimit r.perPage = false) ∧
        ∀ p, r.point = .ok (some p) → ¬ p.IsTooLong := by
  constructor
  · rintro ⟨⟨p, distance, hp, hdistance, _⟩, _, hwindow⟩
    refine ⟨hwindow, fun q hq => ?_⟩
    obtain rfl := Except.ok.inj (hp.symm.trans hq)
    exact (exists_distanceSort_iff (isSingle_of_point h hq) geoField).mp ⟨distance, hdistance⟩
  · rintro ⟨hwindow, hpoint⟩
    obtain ⟨p, hp⟩ := exists_point hsingle
    obtain ⟨distance, hdistance⟩ : ∃ distance,
        distanceSort (.text geoField) p = .ok distance := by
      cases p with
      | none => exact ⟨[], rfl⟩
      | some p =>
          have hp' := isSingle_of_point h hp
          exact (exists_distanceSort_iff hp' geoField).mpr (hpoint p hp)
    exact ⟨⟨p, distance, hp, hdistance, areWritable_sort hdistance r.sort⟩,
      isWritable_textCondition names r, hwindow⟩

/-- A valid request with plain operands has a body unless a number in it is too long, and so has
each of its operands terms; a list stands for itself however long its numbers are. -/
theorem exists_body_iff {options : Options} {r : Request} (h : ofOptions options = .ok r)
    (hplain : ∀ f ∈ r.filters ++ r.exclusions, f.2.IsPlain) (hsingle : r.SortsBySingle)
    {typeOf : Value → Except Failure Value}
    (htype : ∀ field : String, ∃ t, typeOf (.text field) = .ok t) (names : List String)
    (geoField : String) :
    (∀ f ∈ r.filters ++ r.exclusions, ∀ allowZero fieldType,
      (∃ ts, Terms.ofOperand allowZero fieldType f.2 = .ok ts) ↔
        (f.2.IsSingle → ¬ Terms.TooLong f.2)) ∧
    ((∃ body, r.compile (names.map .text) typeOf (.text geoField) = .ok body) ↔ r.InLimits) := by
  constructor
  · intro f hf allowZero fieldType
    exact Terms.exists_ofOperand_iff allowZero fieldType (hplain f hf)
  · rw [exists_compile_iff, forall_hasClause_iff htype hplain, framed_iff h hsingle]
    constructor
    · rintro ⟨⟨hwindow, hpoint⟩, hoperands⟩
      exact ⟨hwindow, hpoint, hoperands⟩
    · intro hlimits
      exact ⟨⟨hlimits.window, hlimits.point⟩, hlimits.operands⟩

/-- A call with filters of every plain kind, sorted by distance. -/
def plainOptions : Options :=
  [("text", .text "ber"), ("page", .int 3), ("geo_order", .bool true),
    ("filters", .list [.list [.text "capital", .bool true], .list [.text "lat", .text "47.5"],
      .list [.text "lon", .int 7], .list [.text "country_id", .text "4,x,12"],
      .list [.text "height", .float (.finite false 1 3)]]),
    ("exclusions", .list [.list [.text "population", .int 0], .list [.text "region", .null],
      .list [.text "country_id", .list [.int 9, .text "x"]]])]

/-- The request of `plainOptions`. -/
def plainCall : Request where
  text := "ber"
  fields := none
  filters := [("capital", .bool true), ("lat", .text "47.5"), ("lon", .int 7),
    ("country_id", .text "4,x,12"), ("height", .float (.finite false 1 3))]
  exclusions := [("population", .int 0), ("region", .null),
    ("country_id", .list [.int 9, .text "x"])]
  sort := []
  geo := none
  geoOrder := true
  page := 3
  perPage := 50

theorem inLimits_plainCall : plainCall.InLimits where
  window := by decide +kernel
  point := by
    rintro p hp ⟨_, n, hn, hlong⟩
    obtain rfl := Option.some.inj (Except.ok.inj hp)
    rcases hn with hn | hn
    · cases hn
    · obtain rfl := Value.int.inj hn
      exact absurd hlong (by decide +kernel)
  operands := by
    have hkept : plainCall.inclusions ++ plainCall.exclusions =
        [("capital", .bool true), ("country_id", .text "4,x,12"),
          ("height", .float (.finite false 1 3)), ("population", .int 0), ("region", .null),
          ("country_id", .list [.int 9, .text "x"])] := rfl
    rw [hkept]
    simp only [List.forall_mem_cons]
    refine ⟨id, Terms.not_tooLong_of_length_le (by decide), id, ?_, id, ?_, List.forall_mem_nil _⟩
    · rw [Terms.TooLong]
      decide +kernel
    · rintro ⟨n, hn, hlong⟩
      have hnine : n = 9 := by simpa using hn
      rw [hnine] at hlong
      exact absurd hlong (by decide +kernel)

theorem exists_body_iff_plainCall : ofOptions plainOptions = .ok plainCall ∧ plainCall.InLimits ∧
    ∃ body, plainCall.compile [.text "name"] crowdedTypes (.text "lat_lon") = .ok body := by
  have hoptions : ofOptions plainOptions = .ok plainCall := rfl
  have hplain : ∀ f ∈ plainCall.filters ++ plainCall.exclusions, f.2.IsPlain := by
    simp [plainCall, IsPlain, IsSingle, items?]
  have hsingle : plainCall.SortsBySingle := by
    simp [SortsBySingle, plainCall, isCoordinate, IsSingle]
  have htype : ∀ field : String, ∃ t, crowdedTypes (.text field) = .ok t := fun _ => ⟨_, rfl⟩
  obtain ⟨_, hbody⟩ := exists_body_iff hoptions hplain hsingle htype ["name"] "lat_lon"
  exact ⟨hoptions, inLimits_plainCall, hbody.mpr inLimits_plainCall⟩

/-- Digits that are too many are not replaced by a zero. -/
theorem ofText_replicate {k : Nat} (hk : Numeral.digitLimit < k) :
    Terms.ofText (List.replicate k '9') = .error (.unreadable k) := by
  have hne : List.replicate k '9' ≠ [] := by
    rw [Ne, List.replicate_eq_nil_iff]
    omega
  have hcomma : ',' ∉ List.replicate k '9' := fun h =>
    absurd (List.mem_replicate.mp h).2 (by decide)
  have hdigits : ∀ c ∈ List.replicate k '9', Text.isDigit c = true := by
    intro c hc
    rw [(List.mem_replicate.mp hc).2]
    rfl
  have hlead : Terms.leadingDigits ([] ++ ([] ++ (List.replicate k '9' ++ []))) =
      List.replicate k '9' ++ [] :=
    Terms.leadingDigits_append (List.forall_mem_nil _) (by simp [Numeral.signs]) hdigits hne []
  rw [List.nil_append, List.nil_append, List.append_nil] at hlead
  have hread : Terms.leadingInt (List.replicate k '9') = .error (.unreadable k) := by
    rw [Terms.leadingInt_eq, hlead, if_neg hne, List.length_replicate, if_pos hk]
  have htail := Text.dropEmptyTail_append [] hne 0
  rw [List.nil_append, List.replicate_zero, List.nil_append] at htail
  rw [Terms.ofText, Text.fields_of_notMem hcomma, htail, List.mapM_cons, hread]
  rfl

/-- A text of one digit more than can be read. -/
def longText : String := String.ofList (List.replicate 4301 '9')

/-- A request for such a number. -/
def longRequest : Request := ⟨"", none, [("a", .text longText)], [], [], none, false, 1, 50⟩

theorem ofOperand_longText (allowZero : Bool) :
    Terms.ofOperand allowZero .null (.text longText) = .error (.unreadable 4301) := by
  have hlist : longText.toList = List.replicate 4301 '9' := String.toList_ofList
  have hword (word : String) (hshort : word.toList.length < 4301) : longText ≠ word := by
    intro heq
    rw [← heq, hlist, List.length_replicate] at hshort
    exact Nat.lt_irrefl _ hshort
  have hflag : Value.null = .text "boolean" → longText ≠ "0" ∧ longText ≠ "1" := nofun
  rw [Terms.ofOperand_text (hword "true" (by decide)) (hword "false" (by decide)) hflag, hlist,
    ofText_replicate (by decide)]
  rfl

theorem exists_unreadable :
    Terms.ofOperand true .null (.text longText) = .error (.unreadable 4301) ∧
      ofOptions [("filters", .list [.list [.text "a", .text longText]])] = .ok longRequest ∧
      ¬ ∃ body, longRequest.compile [.text "name"] (fun _ => .ok .null) (.text "lat_lon") =
        .ok body := by
  refine ⟨ofOperand_longText true, rfl, ?_⟩
  rw [exists_compile_iff]
  rintro ⟨_, hin, _⟩
  obtain ⟨t, values, ht, hvalues, _⟩ :=
    (hasClause_inclusion_iff _).mp (hin ("a", .text longText) List.mem_cons_self)
  obtain rfl := Except.ok.inj ht
  rw [ofOperand_longText] at hvalues
  cases hvalues

end Request

end Typeahead
