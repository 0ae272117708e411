import Typeahead.Proofs.Outcome
import Typeahead.Search.Body

/-!
# What a compiled query means

`Reading.satisfies d q` says whether a document satisfies a query in the form that is
sent.  It is read off that form alone: `match_all` holds of every document, `bool` is
the conjunction of its `must`, of all its `filter` and of the negation of its
`must_not`, and `terms` asks for one of several values of a field.  How a document
answers a match of text, and which values its fields hold, is left to `Reading`.

A compiled request is one `match_all` or one `bool`, and a document satisfies it when it
answers the text and meets every inclusion and every exclusion by itself.
-/

namespace Typeahead

/-- How a document answers the elementary conditions. -/
structure Reading where
  matchesText : String → List Value → Prop
  holds : String → Value → Prop

namespace Reading

/-- Whether one of the values that a field is asked for is there. -/
def holdsSome (d : Reading) (field : String) (values : List Value) : Prop :=
  ∃ v ∈ values, d.holds field v

/-- The condition of a `terms` clause: it names one field with its values. -/
def satisfiesTerms (d : Reading) : Entries → Prop
  | [(.text field, .list values)] => d.holdsSome field values
  | _ => False

/-- The condition of a `multi_match` clause. -/
def satisfiesText (d : Reading) (clause : Entries) : Prop :=
  match Entries.get clause "query", Entries.get clause "fields" with
  | .text text, .list fields => d.matchesText text fields
  | _, _ => False

mutual

/-- Whether a document satisfies a query: all the clauses that it is made of. -/
def satisfies (d : Reading) : Value → Prop
  | .dict clauses => satisfiesClauses d clauses
  | _ => False

/-- Whether a document satisfies several named clauses. -/
def satisfiesClauses (d : Reading) : Entries → Prop
  | [] => True
  | (name, .dict clause) :: rest =>
      (if name.text? = some "match_all" then True
        else if name.text? = some "bool" then satisfiesParts d clause
        else if name.text? = some "terms" then d.satisfiesTerms clause
        else if name.text? = some "multi_match" then d.satisfiesText clause
        else False) ∧ satisfiesClauses d rest
  | _ :: _ => False

/-- Whether a document satisfies the parts of a `bool` clause. -/
def satisfiesParts (d : Reading) : Entries → Prop
  | [] => True
  | (name, part) :: rest =>
      (if name.text? = some "must" then satisfies d part
        else if name.text? = some "must_not" then ¬ satisfies d part
        else if name.text? = some "filter" then satisfiesEach d part
        else False) ∧ satisfiesParts d rest

/-- Whether a document satisfies every query of a list. -/
def satisfiesEach (d : Reading) : Value → Prop
  | .list queries => satisfiesAll d queries
  | _ => False

/-- Whether a document satisfies all of several queries. -/
def satisfiesAll (d : Reading) : List Value → Prop
  | [] => True
  | q :: qs => satisfies d q ∧ satisfiesAll d qs

end

variable (d : Reading)

theorem satisfiesClauses_singleton (name : String) (clause : Entries) :
    d.satisfies (.dict [(.text name, .dict clause)]) ↔
      if name = "match_all" then True
      else if name = "bool" then d.satisfiesParts clause
      else if name = "terms" then d.satisfiesTerms clause
      else if name = "multi_match" then d.satisfiesText clause
      else False := by
  simp [satisfies, satisfiesClauses, Value.text?]

theorem satisfiesParts_append (parts more : Entries) :
    d.satisfiesParts (parts ++ more) ↔ d.satisfiesParts parts ∧ d.satisfiesParts more := by
  induction parts with
  | nil => simp [satisfiesParts]
  | cons part parts ih =>
      rw [List.cons_append, satisfiesParts, satisfiesParts, ih, and_assoc]

/-! The clauses of a query, as `Query.toValue` writes them. -/

theorem satisfies_matchAll : d.satisfies Query.matchAll.toValue := by
  rw [Query.toValue, satisfiesClauses_singleton]
  simp

theorem satisfies_multiMatch (text : String) (fields : List Value) :
    d.satisfies (Query.multiMatch text fields).toValue ↔ d.matchesText text fields := by
  have hquery : Entries.get [(.text "query", .text text), (.text "fields", .list fields)]
      "query" = .text text := rfl
  have hfields : Entries.get [(.text "query", .text text), (.text "fields", .list fields)]
      "fields" = .list fields := rfl
  rw [Query.toValue, satisfiesClauses_singleton]
  simp [satisfiesText, hquery, hfields]

theorem satisfies_terms (field : String) (values : List Value) :
    d.satisfies (Query.terms field values).toValue ↔ d.holdsSome field values := by
  rw [Query.toValue, satisfiesClauses_singleton]
  simp [satisfiesTerms]

theorem satisfiesParts_must (must : Option Query) :
    d.satisfiesParts (Query.mustEntries must) ↔ ∀ q ∈ must, d.satisfies q.toValue := by
  cases must with
  | none => simp [Query.mustEntries, satisfiesParts]
  | some q => simp [Query.mustEntries, satisfiesParts, Value.text?]

theorem satisfiesParts_mustNot (excluded : Option Query) :
    d.satisfiesParts (Query.mustNotEntries excluded) ↔
      ∀ q ∈ excluded, ¬ d.satisfies q.toValue := by
  cases excluded with
  | none => simp [Query.mustNotEntries, satisfiesParts]
  | some q => simp [Query.mustNotEntries, satisfiesParts, Value.text?]

theorem satisfiesAll_filterValues (filters : List Query) :
    d.satisfiesAll (Query.filterValues filters) ↔ ∀ q ∈ filters, d.satisfies q.toValue := by
  induction filters with
  | nil => simp [Query.filterValues, satisfiesAll]
  | cons q qs ih =>
      rw [Query.filterValues, satisfiesAll, ih, List.forall_mem_cons]

theorem satisfiesParts_filter (filters : List Query) :
    d.satisfiesParts (Query.filterEntries filters) ↔ ∀ q ∈ filters, d.satisfies q.toValue := by
  cases filters with
  | nil => simp [Query.filterEntries, satisfiesParts]
  | cons q qs =>
      have hall := d.satisfiesAll_filterValues qs
      simp [Query.filterEntries, satisfiesParts, satisfiesEach, satisfiesAll, Value.text?, hall]

/-- A compound query is a conjunction: its main condition, each of its filters, and the
negation of its excluded condition. -/
theorem satisfies_compound (must : Option Query) (filters : List Query)
    (excluded : Option Query) :
    d.satisfies (Query.compound must filters excluded).toValue ↔
      (∀ q ∈ must, d.satisfies q.toValue) ∧ (∀ q ∈ filters, d.satisfies q.toValue) ∧
        ∀ q ∈ excluded, ¬ d.satisfies q.toValue := by
  rw [Query.toValue, satisfiesClauses_singleton]
  simp only [if_neg (show ¬ "bool" = "match_all" by decide), if_true]
  rw [satisfiesParts_append, satisfiesParts_append, satisfiesParts_must, satisfiesParts_filter,
    satisfiesParts_mustNot, and_assoc]

end Reading

namespace Request

/-- What an inclusion asks of a document: that its field holds one of the values that the
operand stands for, with zeros left out. -/
def includes (typeOf : Value → Except Failure Value) (d : Reading) (f : String × Value) : Prop :=
  ∃ fieldType values, typeOf (.text f.1) = .ok fieldType ∧
    Terms.ofOperand false fieldType f.2 = .ok values ∧ d.holdsSome f.1 values

/-- What an exclusion asks of a document: that its field holds none of the values that the
operand stands for, zeros among them. -/
def excludes (typeOf : Value → Except Failure Value) (d : Reading) (f : String × Value) : Prop :=
  ∃ fieldType values, typeOf (.text f.1) = .ok fieldType ∧
    Terms.ofOperand true fieldType f.2 = .ok values ∧ ¬ d.holdsSome f.1 values

variable {typeOf : Value → Except Failure Value}

theorem inclusionClause_eq_ok_iff (f : String × Value) (q : Query) :
    inclusionClause typeOf f = .ok q ↔
      ∃ fieldType values, typeOf (.text f.1) = .ok fieldType ∧
        Terms.ofOperand false fieldType f.2 = .ok values ∧ q = .terms f.1 values := by
  simp only [inclusionClause, Outcome.bind_eq_ok_iff, Outcome.pure_eq_ok_iff]
  constructor
  · rintro ⟨fieldType, htype, values, hvalues, rfl⟩
    exact ⟨fieldType, values, htype, hvalues, rfl⟩
  · rintro ⟨fieldType, values, htype, hvalues, rfl⟩
    exact ⟨fieldType, htype, values, hvalues, rfl⟩

theorem exclusionClause_eq_ok_iff (f : String × Value) (q : Query) :
    exclusionClause typeOf f = .ok q ↔
      ∃ fieldType values, typeOf (.text f.1) = .ok fieldType ∧
        Terms.ofOperand true fieldType f.2 = .ok values ∧
        q = .compound none [] (some (.terms f.1 values)) := by
  simp only [exclusionClause, Outcome.bind_eq_ok_iff, Outcome.pure_eq_ok_iff]
  constructor
  · rintro ⟨fieldType, htype, values, hvalues, rfl⟩
    exact ⟨fieldType, values, htype, hvalues, rfl⟩
  · rintro ⟨fieldType, values, htype, hvalues, rfl⟩
    exact ⟨fieldType, htype, values, hvalues, rfl⟩

theorem satisfies_inclusionClause (d : Reading) {f : String × Value} {q : Query}
    (h : inclusionClause typeOf f = .ok q) : d.satisfies q.toValue ↔ includes typeOf d f := by
  obtain ⟨fieldType, values, htype, hvalues, rfl⟩ := (inclusionClause_eq_ok_iff f q).mp h
  rw [d.satisfies_terms]
  constructor
  · intro hsome
    exact ⟨fieldType, values, htype, hvalues, hsome⟩
  · rintro ⟨fieldType', values', htype', hvalues', hsome⟩
    obtain rfl : fieldType = fieldType' := Except.ok.inj (htype.symm.trans htype')
    obtain rfl : values = values' := Except.ok.inj (hvalues.symm.trans hvalues')
    exact hsome

theorem satisfies_exclusionClause (d : Reading) {f : String × Value} {q : Query}
    (h : exclusionClause typeOf f = .ok q) : d.satisfies q.toValue ↔ excludes typeOf d f := by
  obtain ⟨fieldType, values, htype, hvalues, rfl⟩ := (exclusionClause_eq_ok_iff f q).mp h
  have hnot : d.satisfies (Query.compound none [] (some (.terms f.1 values))).toValue ↔
      ¬ d.holdsSome f.1 values := by
    rw [d.satisfies_compound]
    simp [d.satisfies_terms]
  rw [hnot]
  constructor
  · intro hnone
    exact ⟨fieldType, values, htype, hvalues, hnone⟩
  · rintro ⟨fieldType', values', htype', hvalues', hnone⟩
    obtain rfl : fieldType = fieldType' := Except.ok.inj (htype.symm.trans htype')
    obtain rfl : values = values' := Except.ok.inj (hvalues.symm.trans hvalues')
    exact hnone

/-- Clauses that were made one for each filter hold together when each filter is met. -/
theorem satisfies_all_iff (d : Reading) {clause : String × Value → Except Failure Query}
    {meets : String × Value → Prop}
    (hclause : ∀ f q, clause f = .ok q → (d.satisfies q.toValue ↔ meets f))
    {fs : List (String × Value)} {qs : List Query}
    (h : List.Forall₂ (fun f q => clause f = .ok q) fs qs) :
    (∀ q ∈ qs, d.satisfies q.toValue) ↔ ∀ f ∈ fs, meets f := by
  induction h with
  | nil => simp
  | cons hq _ ih => rw [List.forall_mem_cons, List.forall_mem_cons, hclause _ _ hq, ih]

theorem satisfies_clauses (d : Reading) {r : Request} {qs : List Query}
    (h : r.clauses typeOf = .ok qs) :
    (∀ q ∈ qs, d.satisfies q.toValue) ↔
      (∀ f ∈ r.inclusions, includes typeOf d f) ∧ ∀ f ∈ r.exclusions, excludes typeOf d f := by
  simp only [clauses, Outcome.bind_eq_ok_iff, Outcome.mapM_eq_ok_iff,
    Outcome.pure_eq_ok_iff] at h
  obtain ⟨included, hincluded, excluded, hexcluded, rfl⟩ := h
  have hin := satisfies_all_iff d (fun _ _ => satisfies_inclusionClause d) hincluded
  have hex := satisfies_all_iff d (fun _ _ => satisfies_exclusionClause d) hexcluded
  simp only [List.mem_append, or_imp, forall_and]
  rw [hin, hex]

theorem mem_inclusions_iff (r : Request) (f : String × Value) :
    f ∈ r.inclusions ↔ f ∈ r.filters ∧ ¬ (r.geoOrder ∧ (f.1 = "lat" ∨ f.1 = "lon")) := by
  cases hgeo : r.geoOrder with
  | false => simp [inclusions, hgeo]
  | true => simp [inclusions, isCoordinate, hgeo]

/-- The fields of the request count only when there are any. -/
theorem searchedFields_eq (defaults : List Value) (r : Request) :
    r.searchedFields defaults =
      if r.fields.getD [] = [] then defaults else (r.fields.getD []).map .text := by
  cases hfields : r.fields with
  | none => simp [searchedFields, hfields]
  | some fs =>
      cases fs with
      | nil => simp [searchedFields, hfields]
      | cons f fs => simp [searchedFields, hfields]

theorem satisfies_textCondition (d : Reading) (defaults : List Value) (r : Request) :
    (∀ q ∈ r.textCondition defaults, d.satisfies q.toValue) ↔
      r.text = "" ∨ d.matchesText r.text (r.searchedFields defaults) := by
  by_cases htext : r.text = ""
  · simp [textCondition, htext]
  · simp [textCondition, htext, d.satisfies_multiMatch]

/-- Whether there is nothing to ask or something, a combination asks for its main condition
and for all clauses. -/
theorem satisfies_combine (d : Reading) (main : Option Query) (clauses : List Query) :
    d.satisfies (combine main clauses).toValue ↔
      (∀ q ∈ main, d.satisfies q.toValue) ∧ ∀ q ∈ clauses, d.satisfies q.toValue := by
  rw [combine]
  split
  · next hnone =>
    rw [Bool.and_eq_true, Option.isNone_iff_eq_none, List.isEmpty_iff] at hnone
    obtain ⟨rfl, rfl⟩ := hnone
    simp [d.satisfies_matchAll]
  · rw [d.satisfies_compound]
    simp

/-- A combination is sent as a single `match_all` or a single `bool`. -/
theorem toValue_combine (main : Option Query) (clauses : List Query) :
    (∃ inner, (combine main clauses).toValue = .dict [(.text "match_all", inner)]) ∨
      ∃ parts, (combine main clauses).toValue = .dict [(.text "bool", parts)] := by
  rw [combine]
  split
  · exact Or.inl ⟨.dict [], by rw [Query.toValue]⟩
  · exact Or.inr ⟨_, by rw [Query.toValue]⟩

/-- A request is compiled to one body from its parts: its point, its clauses and what it is sorted
by.  All of them must be there, and the body must be writable. -/
theorem compile_eq_ok_iff {r : Request} {defaults : List Value} {geoField : Value}
    {body : SearchBody} : r.compile defaults typeOf geoField = .ok body ↔
      ∃ point qs distance, r.point = .ok point ∧ r.clauses typeOf = .ok qs ∧
        distanceSort geoField point = .ok distance ∧ body.toValue.isWritable = true ∧
        body = ⟨combine (r.textCondition defaults) qs,
          distance ++ r.sort.map fun s => .by s.1 s.2, r.offset, r.perPage⟩ := by
  rw [compile]
  constructor
  · intro h
    split at h
    · cases h
    · next point hpoint =>
      simp only [Outcome.bind_eq_ok_iff, Outcome.pure_eq_ok_iff,
        Value.requireWritable_eq_ok_iff] at h
      obtain ⟨qs, hqs, distance, hdistance, _, hwritable, rfl⟩ := h
      exact ⟨point, qs, distance, hpoint, hqs, hdistance, hwritable, rfl⟩
  · rintro ⟨point, qs, distance, hpoint, hqs, hdistance, hwritable, rfl⟩
    rw [hpoint]
    simp only [Outcome.bind_eq_ok_iff, Outcome.pure_eq_ok_iff, Value.requireWritable_eq_ok_iff]
    exact ⟨qs, hqs, distance, hdistance, (), hwritable, rfl⟩

theorem query_of_compile {r : Request} {defaults : List Value} {geoField : Value}
    {body : SearchBody} (h : r.compile defaults typeOf geoField = .ok body) :
    ∃ qs, r.clauses typeOf = .ok qs ∧ body.query = combine (r.textCondition defaults) qs := by
  obtain ⟨_, qs, _, _, hqs, _, _, rfl⟩ := compile_eq_ok_iff.mp h
  exact ⟨qs, hqs, rfl⟩

/-- A compiled query keeps the meaning of its request.  It has a single clause at its top,
`match_all` or `bool`, and a document satisfies it when it answers the text, unless there
is none, and meets every inclusion that is not a coordinate taken for the sort order, and
every exclusion.  A field that is named twice is asked twice. -/
theorem compile_satisfies_iff (d : Reading) (r : Request) (defaults : List Value)
    (geoField : Value) (body : SearchBody) (h : r.compile defaults typeOf geoField = .ok body) :
    ((∃ inner, body.query.toValue = .dict [(.text "match_all", inner)]) ∨
        ∃ parts, body.query.toValue = .dict [(.text "bool", parts)]) ∧
      (d.satisfies body.query.toValue ↔
        (r.text = "" ∨ d.matchesText r.text
          (if r.fields.getD [] = [] then defaults else (r.fields.getD []).map .text)) ∧
        (∀ f ∈ r.filters, ¬ (r.geoOrder ∧ (f.1 = "lat" ∨ f.1 = "lon")) →
          includes typeOf d f) ∧
        ∀ f ∈ r.exclusions, excludes typeOf d f) := by
  obtain ⟨qs, hqs, hquery⟩ := query_of_compile h
  rw [hquery]
  refine ⟨toValue_combine _ _, ?_⟩
  rw [satisfies_combine, satisfies_textCondition, satisfies_clauses d hqs, searchedFields_eq]
  simp only [mem_inclusions_iff, and_imp]

/-- A request with text, a repeated inclusion, a coordinate for the sort order and an
exclusion of zero. -/
def crowdedRequest : Request where
  text := "ber"
  fields := none
  filters := [("capital", .text "1"), ("lat", .text "52.5"), ("capital", .text "true")]
  exclusions := [("country_id", .text "0,4")]
  sort := []
  geo := none
  geoOrder := true
  page := 1
  perPage := 50

/-- The body of `crowdedRequest` where `capital` is a field of truth values. -/
def crowdedBody : SearchBody where
  query := .compound (some (.multiMatch "ber" [.text "name"]))
    [.terms "capital" [.bool true], .terms "capital" [.bool true],
      .compound none [] (some (.terms "country_id" [.int 0, .int 4]))] none
  sort := []
  offset := 0
  size := 50

/-- The types of `crowdedRequest`: every field but `capital` is untyped. -/
def crowdedTypes (field : Value) : Except Failure Value :=
  .ok (if field.text? = some "capital" then .text "boolean" else .null)

theorem isWritable_crowdedBody : crowdedBody.toValue.isWritable = true := by
  decide +kernel

theorem clauses_crowdedRequest :
    crowdedRequest.clauses crowdedTypes = .ok
      [.terms "capital" [.bool true], .terms "capital" [.bool true],
        .compound none [] (some (.terms "country_id" [.int 0, .int 4]))] := by
  rfl

theorem compile_crowdedRequest :
    crowdedRequest.compile [.text "name"] crowdedTypes (.text "lat_lon") = .ok crowdedBody := by
  have hpoint : crowdedRequest.point = .ok (some ⟨.text "52.5", .null⟩) := by rfl
  exact compile_eq_ok_iff.mpr
    ⟨_, _, [], hpoint, clauses_crowdedRequest, rfl, isWritable_crowdedBody, rfl⟩

/-- The meaning of a compiled request, at a request that meets every part of it. -/
theorem compile_satisfies_iff_crowdedRequest :
    crowdedRequest.compile [.text "name"] crowdedTypes (.text "lat_lon") = .ok crowdedBody ∧
      ∀ d : Reading, d.satisfies crowdedBody.query.toValue ↔
        d.matchesText "ber" [.text "name"] ∧
          (∀ f ∈ [("capital", Value.text "1"), ("capital", .text "true")],
            includes crowdedTypes d f) ∧
          excludes crowdedTypes d ("country_id", .text "0,4") := by
  refine ⟨compile_crowdedRequest, ?_⟩
  intro d
  have h := (compile_satisfies_iff d crowdedRequest [.text "name"] (.text "lat_lon") crowdedBody
    compile_crowdedRequest).2
  rw [h]
  simp [crowdedRequest]

end Request

end Typeahead
