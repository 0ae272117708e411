import Typeahead.Proofs.Search.Paging

/-!
# Blank operands

A blank operand stands for no terms, so its clause asks for one of no values.  An exclusion
with it excludes nothing, and the query means what it meant without.  An inclusion with it
includes nothing: no document satisfies the query any more.  Either way the request can be
compiled exactly when the type of the named field is known.
-/

namespace Typeahead

namespace Query

theorem areWritable_filterValues (filters : List Query) :
    Value.areWritable (filterValues filters) = true ↔
      ∀ q ∈ filters, q.toValue.isWritable = true := by
  induction filters with
  | nil => simp [filterValues, Value.areWritable]
  | cons q qs ih => simp [filterValues, Value.areWritable, ih]

/-- A combination can be written down when its parts can. -/
theorem isWritable_combine (main : Option Query) (clauses : List Query) :
    (Request.combine main clauses).toValue.isWritable = true ↔
      (∀ q ∈ main, q.toValue.isWritable = true) ∧
        ∀ q ∈ clauses, q.toValue.isWritable = true := by
  have hclauses := areWritable_filterValues clauses
  cases main with
  | none =>
      cases clauses with
      | nil => simp [Request.combine, toValue, Value.isWritable, Value.entriesWritable]
      | cons q qs =>
          simpa [Request.combine, toValue, mustEntries, filterEntries, filterValues,
            mustNotEntries, Value.isWritable, Value.entriesWritable] using hclauses
  | some m =>
      cases clauses with
      | nil =>
          simp [Request.combine, toValue, mustEntries, filterEntries, mustNotEntries,
            Value.isWritable, Value.entriesWritable]
      | cons q qs =>
          have hboth := and_congr_right (a := m.toValue.isWritable = true) fun _ => hclauses
          simpa [Request.combine, toValue, mustEntries, filterEntries, filterValues,
            mustNotEntries, Value.isWritable, Value.entriesWritable] using hboth

/-- Terms can be written down whether they are asked for or ruled out. -/
theorem isWritable_terms (field : String) (values : List Value) :
    (terms field values).toValue.isWritable = Value.areWritable values := by
  simp [toValue, Value.isWritable, Value.entriesWritable]

theorem isWritable_not_terms (field : String) (values : List Value) :
    (compound none [] (some (terms field values))).toValue.isWritable =
      Value.areWritable values := by
  simp [toValue, mustEntries, filterEntries, mustNotEntries, Value.isWritable,
    Value.entriesWritable]

end Query

namespace Request

/-- Whether an operand is left blank. -/
def IsBlank (v : Value) : Prop := v = .null ∨ v = .text ""

/-- A blank operand stands for no terms, whatever the type of the field. -/
theorem ofOperand_of_isBlank {v : Value} (h : IsBlank v) (allowZero : Bool) (fieldType : Value) :
    Terms.ofOperand allowZero fieldType v = .ok [] := by
  rcases h with rfl | rfl
  · rfl
  · rfl

variable {typeOf : Value → Except Failure Value}

/-- A clause that an inclusion or an exclusion is compiled to. -/
def HasClause (clause : String × Value → Except Failure Query) (f : String × Value) : Prop :=
  ∃ q, clause f = .ok q ∧ q.toValue.isWritable = true

/-- A filter has a clause when its terms are known and can be written down. -/
theorem hasClause_iff {clause : String × Value → Except Failure Query} {allowZero : Bool}
    {wrap : List Value → Query} {f : String × Value}
    (hclause : ∀ q, clause f = .ok q ↔ ∃ t values, typeOf (.text f.1) = .ok t ∧
      Terms.ofOperand allowZero t f.2 = .ok values ∧ q = wrap values)
    (hwrap : ∀ values, (wrap values).toValue.isWritable = Value.areWritable values) :
    HasClause clause f ↔ ∃ t values, typeOf (.text f.1) = .ok t ∧
      Terms.ofOperand allowZero t f.2 = .ok values ∧ Value.areWritable values = true := by
  simp only [HasClause, hclause]
  constructor
  · rintro ⟨_, ⟨t, values, ht, hvalues, rfl⟩, hwritable⟩
    exact ⟨t, values, ht, hvalues, hwrap values ▸ hwritable⟩
  · rintro ⟨t, values, ht, hvalues, hwritable⟩
    exact ⟨_, ⟨t, values, ht, hvalues, rfl⟩, (hwrap values).trans hwritable⟩

theorem hasClause_inclusion_iff (f : String × Value) : HasClause (inclusionClause typeOf) f ↔
    ∃ t values, typeOf (.text f.1) = .ok t ∧ Terms.ofOperand false t f.2 = .ok values ∧
      Value.areWritable values = true :=
  hasClause_iff (inclusionClause_eq_ok_iff f) (Query.isWritable_terms f.1)

theorem hasClause_exclusion_iff (f : String × Value) : HasClause (exclusionClause typeOf) f ↔
    ∃ t values, typeOf (.text f.1) = .ok t ∧ Terms.ofOperand true t f.2 = .ok values ∧
      Value.areWritable values = true :=
  hasClause_iff (exclusionClause_eq_ok_iff f) (Query.isWritable_not_terms f.1)

theorem hasClause_inclusion_of_isBlank {blank : Value} (h : IsBlank blank) (field : String) :
    HasClause (inclusionClause typeOf) (field, blank) ↔ ∃ t, typeOf (.text field) = .ok t := by
  rw [hasClause_inclusion_iff]
  constructor
  · rintro ⟨t, _, ht, _⟩
    exact ⟨t, ht⟩
  · rintro ⟨t, ht⟩
    exact ⟨t, [], ht, ofOperand_of_isBlank h false t, rfl⟩

theorem hasClause_exclusion_of_isBlank {blank : Value} (h : IsBlank blank) (field : String) :
    HasClause (exclusionClause typeOf) (field, blank) ↔ ∃ t, typeOf (.text field) = .ok t := by
  rw [hasClause_exclusion_iff]
  constructor
  · rintro ⟨t, _, ht, _⟩
    exact ⟨t, ht⟩
  · rintro ⟨t, ht⟩
    exact ⟨t, [], ht, ofOperand_of_isBlank h true t, rfl⟩

/-- No document holds one of no values. -/
theorem not_includes_of_isBlank {blank : Value} (h : IsBlank blank) (d : Reading)
    (field : String) : ¬ includes typeOf d (field, blank) := by
  rintro ⟨t, values, _, hvalues, v, hv, _⟩
  obtain rfl := Except.ok.inj ((ofOperand_of_isBlank h false t).symm.trans hvalues)
  cases hv

/-- Every document holds none of no values. -/
theorem excludes_of_isBlank {blank : Value} (h : IsBlank blank) (d : Reading) {field : String}
    {t : Value} (ht : typeOf (.text field) = .ok t) : excludes typeOf d (field, blank) := by
  refine ⟨t, [], ht, ofOperand_of_isBlank h true t, ?_⟩
  rintro ⟨v, hv, _⟩
  cases hv

/-- What a request needs besides its clauses to be compiled: its sort order, its text and its
window can be written down. -/
structure Framed (defaults : List Value) (geoField : Value) (r : Request) : Prop where
  sorted : ∃ p distance, r.point = .ok p ∧ distanceSort geoField p = .ok distance ∧
    Value.areWritable ((distance ++ r.sort.map fun s => SortEntry.by s.1 s.2).map
      SortEntry.toValue) = true
  text : ∀ q ∈ r.textCondition defaults, q.toValue.isWritable = true
  window : Numeral.exceedsLimit r.offset = false ∧ Numeral.exceedsLimit r.perPage = false

variable {defaults : List Value} {geoField : Value} {r : Request}

theorem exists_clauses_iff : (∃ qs, r.clauses typeOf = .ok qs ∧
      ∀ q ∈ qs, q.toValue.isWritable = true) ↔
    (∀ f ∈ r.inclusions, HasClause (inclusionClause typeOf) f) ∧
      ∀ f ∈ r.exclusions, HasClause (exclusionClause typeOf) f := by
  have hsplit {clause : String × Value → Except Failure Query} {fs : List (String × Value)} :
      (∃ qs, fs.mapM clause = .ok qs ∧ ∀ q ∈ qs, q.toValue.isWritable = true) ↔
        ∀ f ∈ fs, HasClause clause f := by
    constructor
    · rintro ⟨qs, hqs, hwritable⟩ f hf
      obtain ⟨q, hq, hclause⟩ := Outcome.exists_of_mapM_eq_ok hqs hf
      exact ⟨q, hclause, hwritable q hq⟩
    · intro hall
      obtain ⟨qs, hqs⟩ := (Outcome.exists_mapM_iff clause fs).mpr fun f hf =>
        let ⟨q, hq, _⟩ := hall f hf
        ⟨q, hq⟩
      refine ⟨qs, hqs, (Outcome.forall_mem_of_mapM hqs _).mpr fun f hf q hq => ?_⟩
      obtain ⟨q', hq', hwritable⟩ := hall f hf
      exact Except.ok.inj (hq'.symm.trans hq) ▸ hwritable
  rw [← hsplit, ← hsplit]
  simp only [clauses, Outcome.bind_eq_ok_iff, Outcome.pure_eq_ok_iff]
  constructor
  · rintro ⟨_, ⟨included, hincluded, excluded, hexcluded, rfl⟩, hall⟩
    exact ⟨⟨included, hincluded, fun q hq => hall q (List.mem_append_left _ hq)⟩,
      excluded, hexcluded, fun q hq => hall q (List.mem_append_right _ hq)⟩
  · rintro ⟨⟨included, hincluded, hin⟩, excluded, hexcluded, hex⟩
    refine ⟨_, ⟨included, hincluded, excluded, hexcluded, rfl⟩, fun q hq => ?_⟩
    exact (List.mem_append.mp hq).elim (hin q) (hex q)

/-- A request can be compiled when it can apart from its clauses, and all of these can. -/
theorem exists_compile_iff : (∃ body, r.compile defaults typeOf geoField = .ok body) ↔
    Framed defaults geoField r ∧ (∀ f ∈ r.inclusions, HasClause (inclusionClause typeOf) f) ∧
      ∀ f ∈ r.exclusions, HasClause (exclusionClause typeOf) f := by
  rw [← exists_clauses_iff]
  constructor
  · rintro ⟨body, hbody⟩
    obtain ⟨p, qs, distance, hp, hqs, hdistance, hwritable, rfl⟩ := compile_eq_ok_iff.mp hbody
    rw [SearchBody.isWritable_toValue, Query.isWritable_combine] at hwritable
    obtain ⟨⟨htext, hclauses⟩, hsort, hoffset, hsize⟩ := hwritable
    exact ⟨⟨⟨p, distance, hp, hdistance, hsort⟩, htext, hoffset, hsize⟩, qs, hqs, hclauses⟩
  · rintro ⟨⟨⟨p, distance, hp, hdistance, hsort⟩, htext, hoffset, hsize⟩, qs, hqs, hclauses⟩
    refine ⟨_, compile_eq_ok_iff.mpr ⟨p, qs, distance, hp, hqs, hdistance, ?_, rfl⟩⟩
    rw [SearchBody.isWritable_toValue, Query.isWritable_combine]
    exact ⟨⟨htext, hclauses⟩, hsort, hoffset, hsize⟩

/-- A document satisfies a compiled query when it answers the text and meets all inclusions and
exclusions. -/
theorem satisfies_query {body : SearchBody} (h : r.compile defaults typeOf geoField = .ok body)
    (d : Reading) : d.satisfies body.query.toValue ↔
      (r.text = "" ∨ d.matchesText r.text (r.searchedFields defaults)) ∧
        (∀ f ∈ r.inclusions, includes typeOf d f) ∧ ∀ f ∈ r.exclusions, excludes typeOf d f := by
  obtain ⟨qs, hqs, hquery⟩ := query_of_compile h
  rw [hquery, satisfies_combine, satisfies_textCondition, satisfies_clauses d hqs]

/-- A filter more among the inclusions. -/
theorem mem_inclusions_insert {before after : List (String × Value)} (f g : String × Value)
    (hfilters : r.filters = before ++ after)
    (hf : ¬ (r.geoOrder ∧ (f.1 = "lat" ∨ f.1 = "lon"))) :
    g ∈ inclusions { r with filters := before ++ f :: after } ↔ g = f ∨ g ∈ r.inclusions := by
  simp only [mem_inclusions_iff, hfilters, List.mem_append, List.mem_cons]
  by_cases hg : g = f
  · subst hg
    simp [hf]
  · simp [hg]

/-- A filter that is no coordinate to sort by does not change the point. -/
theorem point_insert {before after : List (String × Value)} (f : String × Value)
    (hfilters : r.filters = before ++ after)
    (hf : ¬ (r.geoOrder ∧ (f.1 = "lat" ∨ f.1 = "lon"))) :
    point { r with filters := before ++ f :: after } = r.point := by
  have hextracted (name : String) (hname : f.1 ≠ name) :
      extracted { r with filters := before ++ f :: after } name = r.extracted name := by
    simp [extracted, hfilters, List.find?_append, hname]
  simp only [point]
  by_cases hgeo : r.geoOrder = true
  · obtain ⟨hlat, hlon⟩ : f.1 ≠ "lat" ∧ f.1 ≠ "lon" := by simpa [hgeo] using hf
    rw [hextracted "lat" hlat, hextracted "lon" hlon]
  · simp [hgeo]

/-- A blank operand adds no constraint to the exclusions: at any place among them, a filter with it
leaves a compiled request compilable as long as the type of its field is known, and no document is
told apart from before.  Among the inclusions it does more.  There the documents that keep their
answer are those that did not satisfy the query before. -/
theorem compile_blank {body : SearchBody} (hbody : r.compile defaults typeOf geoField = .ok body)
    {blank : Value} (hblank : IsBlank blank) (field : String) (d : Reading)
    (before after : List (String × Value)) :
    (r.exclusions = before ++ after →
      ((∃ body', compile defaults typeOf geoField
          { r with exclusions := before ++ (field, blank) :: after } = .ok body') ↔
        ∃ t, typeOf (.text field) = .ok t) ∧
      ∀ body', compile defaults typeOf geoField
          { r with exclusions := before ++ (field, blank) :: after } = .ok body' →
        (d.satisfies body'.query.toValue ↔ d.satisfies body.query.toValue)) ∧
    (r.filters = before ++ after → ¬ (r.geoOrder ∧ (field = "lat" ∨ field = "lon")) →
      ((∃ body', compile defaults typeOf geoField
          { r with filters := before ++ (field, blank) :: after } = .ok body') ↔
        ∃ t, typeOf (.text field) = .ok t) ∧
      ∀ body', compile defaults typeOf geoField
          { r with filters := before ++ (field, blank) :: after } = .ok body' →
        ((d.satisfies body'.query.toValue ↔ d.satisfies body.query.toValue) ↔
          ¬ d.satisfies body.query.toValue)) := by
  obtain ⟨hframed, hin, hex⟩ := exists_compile_iff.mp ⟨body, hbody⟩
  constructor
  · intro hexclusions
    rw [hexclusions] at hex
    have hcompile : (∃ body', compile defaults typeOf geoField
          { r with exclusions := before ++ (field, blank) :: after } = .ok body') ↔
        ∃ t, typeOf (.text field) = .ok t := by
      rw [exists_compile_iff, ← hasClause_exclusion_of_isBlank hblank]
      constructor
      · rintro ⟨_, _, hall⟩
        exact hall _ (by simp)
      · intro hclause
        refine ⟨⟨hframed.sorted, hframed.text, hframed.window⟩, hin, ?_⟩
        simp only [List.forall_mem_append, List.forall_mem_cons] at hex ⊢
        exact ⟨hex.1, hclause, hex.2⟩
    refine ⟨hcompile, fun body' hbody' => ?_⟩
    obtain ⟨t, ht⟩ := hcompile.mp ⟨body', hbody'⟩
    rw [satisfies_query hbody d, satisfies_query hbody' d, hexclusions]
    simp only [List.forall_mem_append, List.forall_mem_cons, excludes_of_isBlank hblank d ht,
      true_and]
    rfl
  · intro hfilters hfield
    have hmem (g : String × Value) := mem_inclusions_insert (field, blank) g hfilters hfield
    have hcompile : (∃ body', compile defaults typeOf geoField
          { r with filters := before ++ (field, blank) :: after } = .ok body') ↔
        ∃ t, typeOf (.text field) = .ok t := by
      rw [exists_compile_iff, ← hasClause_inclusion_of_isBlank hblank]
      simp only [hmem, forall_eq_or_imp]
      constructor
      · rintro ⟨_, ⟨hclause, _⟩, _⟩
        exact hclause
      · intro hclause
        refine ⟨⟨?_, hframed.text, hframed.window⟩, ⟨hclause, hin⟩, hex⟩
        rw [point_insert (field, blank) hfilters hfield]
        exact hframed.sorted
    refine ⟨hcompile, fun body' hbody' => ?_⟩
    have hnone : ¬ d.satisfies body'.query.toValue := by
      rw [satisfies_query hbody' d]
      rintro ⟨_, hall, _⟩
      exact not_includes_of_isBlank hblank d field (hall _ ((hmem _).mpr (Or.inl rfl)))
    simp [hnone]

/-- Blank operands in a crowded request: an exclusion in front of the others, and an inclusion
between the others. -/
theorem compile_blank_crowdedRequest :
    crowdedRequest.compile [.text "name"] crowdedTypes (.text "lat_lon") = .ok crowdedBody ∧
      (∃ body', compile [.text "name"] crowdedTypes (.text "lat_lon")
          { crowdedRequest with exclusions :=
              [("population", .null), ("country_id", .text "0,4")] } = .ok body' ∧
        ∀ d : Reading,
          d.satisfies body'.query.toValue ↔ d.satisfies crowdedBody.query.toValue) ∧
      ∃ body', compile [.text "name"] crowdedTypes (.text "lat_lon")
          { crowdedRequest with filters :=
              [("capital", .text "1"), ("population", .text ""), ("lat", .text "52.5"),
                ("capital", .text "true")] } = .ok body' ∧
        ∀ d : Reading, (d.satisfies body'.query.toValue ↔
            d.satisfies crowdedBody.query.toValue) ↔
          ¬ d.satisfies crowdedBody.query.toValue := by
  have htype : ∃ t, crowdedTypes (.text "population") = .ok t := ⟨_, rfl⟩
  have hfield : ¬ (crowdedRequest.geoOrder ∧
      ("population" = "lat" ∨ "population" = "lon")) := by decide
  have hexclusion (d : Reading) := (compile_blank compile_crowdedRequest (Or.inl rfl) "population"
    d [] [("country_id", .text "0,4")]).1 rfl
  have hinclusion (d : Reading) := (compile_blank compile_crowdedRequest (Or.inr rfl) "population"
    d [("capital", .text "1")] [("lat", .text "52.5"), ("capital", .text "true")]).2 rfl hfield
  -- the compiled bodies are the same for every document, so any document gives them
  obtain ⟨body, hbody⟩ := (hexclusion ⟨fun _ _ => False, fun _ _ => False⟩).1.mpr htype
  obtain ⟨body', hbody'⟩ := (hinclusion ⟨fun _ _ => False, fun _ _ => False⟩).1.mpr htype
  exact ⟨compile_crowdedRequest, ⟨body, hbody, fun d => (hexclusion d).2 body hbody⟩,
    body', hbody', fun d => (hinclusion d).2 body' hbody'⟩

/-- A request for everything. -/
def openRequest : Request where
  text := ""
  fields := none
  filters := []
  exclusions := []
  sort := []
  geo := none
  geoOrder := false
  page := 1
  perPage := 50

theorem compile_of_writable {body : SearchBody} (hwritable : body.toValue.isWritable = true)
    (h : r.point = .ok none) {qs : List Query} (hqs : r.clauses typeOf = .ok qs)
    (hbody : body = ⟨combine (r.textCondition defaults) qs,
      r.sort.map fun s => .by s.1 s.2, r.offset, r.perPage⟩) :
    r.compile defaults typeOf geoField = .ok body :=
  compile_eq_ok_iff.mpr ⟨none, qs, [], h, hqs, rfl, hwritable, hbody⟩

/-- A blank inclusion takes away every document from a request for everything. -/
theorem exists_blank_constraint : ∃ body body',
    openRequest.compile [] (fun _ => .ok .null) (.text "lat_lon") = .ok body ∧
      compile [] (fun _ => .ok .null) (.text "lat_lon")
        { openRequest with filters := [("name", .null)] } = .ok body' ∧
      ∀ d : Reading, d.satisfies body.query.toValue ∧ ¬ d.satisfies body'.query.toValue := by
  refine ⟨⟨.matchAll, [], 0, 50⟩, ⟨.compound none [.terms "name" []] none, [], 0, 50⟩,
    compile_of_writable (by decide +kernel) rfl rfl rfl,
    compile_of_writable (by decide +kernel) rfl rfl rfl, ?_⟩
  intro d
  refine ⟨d.satisfies_matchAll, ?_⟩
  rw [d.satisfies_compound]
  simp [d.satisfies_terms, Reading.holdsSome]

end Request

end Typeahead
