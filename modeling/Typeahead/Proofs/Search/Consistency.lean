import Typeahead.Proofs.Search.Blanks
import Typeahead.Proofs.Terms.Operands

/-!
# One operand that includes and excludes

The same operand is read in two ways, once for inclusions and once for exclusions.
`Terms.Consistent` says how the two readings differ: by zeros, and only where the operand is read
as numbers.  An exclusion therefore asks for at least the terms of the inclusion, and a request
that has both is met by no document.
-/

namespace Typeahead

namespace Value

/-- Whether a term is the whole number zero. -/
def isIntZero : Value → Bool
  | .int n => n == 0
  | _ => false

/-- Whether there is a truth value among several terms. -/
def HasBool (vs : List Value) : Prop := ∃ b, .bool b ∈ vs

end Value

namespace Terms

open Value

/-- The terms that an operand includes and those that it excludes fit each other. -/
structure Consistent (v : Value) (included excluded : List Value) : Prop where
  sublist : included.Sublist excluded
  /-- Operands that stand for themselves and truth values read the same. -/
  equal : IsWhole v ∨ HasBool included ∨ HasBool excluded → included = excluded
  /-- Anything else reads the same apart from zeros. -/
  apart : ¬ (IsWhole v ∨ HasBool included ∨ HasBool excluded) →
    included = excluded.filter fun t => !t.isIntZero

theorem not_hasBool_numbers (ns : List Int) : ¬ HasBool (ns.map .int) := by
  rintro ⟨b, hb⟩
  obtain ⟨n, _, hn⟩ := List.mem_map.mp hb
  cases hn

/-- Inclusions keep the numbers that are not zero. -/
theorem ofNumbers_false_eq (ns : List Int) :
    ofNumbers false ns = (ofNumbers true ns).filter fun t => !t.isIntZero := by
  rw [ofNumbers_true, ofNumbers_false, List.filter_map]
  rfl

theorem consistent_of_numbers {v : Value} (hwhole : ¬ IsWhole v) (ns : List Int) :
    Consistent v (ofNumbers false ns) (ofNumbers true ns) where
  sublist := by
    rw [ofNumbers_false_eq]
    exact List.filter_sublist
  equal := by
    rintro (h | h | h)
    · exact absurd h hwhole
    · exact absurd h (not_hasBool_numbers _)
    · exact absurd h (not_hasBool_numbers _)
  apart := fun _ => ofNumbers_false_eq ns

theorem consistent_of_eq {v : Value} {ts : List Value} (h : IsWhole v ∨ ∃ b, ts = [.bool b]) :
    Consistent v ts ts where
  sublist := List.Sublist.refl ts
  equal := fun _ => rfl
  apart := by
    intro hnone
    rcases h with h | ⟨b, rfl⟩
    · exact absurd (Or.inl h) hnone
    · exact absurd (Or.inr (Or.inl ⟨b, List.mem_singleton_self _⟩)) hnone

/-- An operand is read both ways or not at all. -/
theorem exists_included_iff (fieldType v : Value) :
    (∃ ts, ofOperand false fieldType v = .ok ts) ↔ ∃ ts, ofOperand true fieldType v = .ok ts := by
  rcases ofOperand_cases fieldType v with ⟨ts, _, hts⟩ | ⟨_, x, _, hx⟩
  · simp [hts]
  · rw [hx, hx]
    cases x with
    | error e => simp [Except.map]
    | ok ns => simp [Except.map]

/-- Whether an operand is asked for or ruled out, its terms can be written down or not. -/
theorem exists_areWritable_included_iff (fieldType v : Value) :
    (∃ ts, ofOperand false fieldType v = .ok ts ∧ areWritable ts = true) ↔
      ∃ ts, ofOperand true fieldType v = .ok ts ∧ areWritable ts = true := by
  rcases ofOperand_cases fieldType v with ⟨ts, _, hts⟩ | ⟨_, x, hshort, hx⟩
  · simp [hts]
  · rw [hx, hx]
    cases x with
    | error e => simp [Except.map]
    | ok ns => simp only [Except.map, Except.ok.injEq, exists_eq_left',
        areWritable_ofNumbers (hshort ns rfl)]

theorem consistent_of_ofOperand {fieldType v : Value} {included excluded : List Value}
    (hin : ofOperand false fieldType v = .ok included)
    (hex : ofOperand true fieldType v = .ok excluded) : Consistent v included excluded := by
  rcases ofOperand_cases fieldType v with ⟨ts, hwhole, hts⟩ | ⟨hwhole, x, _, hx⟩
  · obtain rfl := Except.ok.inj ((hts false).symm.trans hin)
    obtain rfl := Except.ok.inj ((hts true).symm.trans hex)
    exact consistent_of_eq hwhole
  · rw [hx] at hin hex
    cases x with
    | error e => cases hin
    | ok ns =>
        obtain rfl := Except.ok.inj hin
        obtain rfl := Except.ok.inj hex
        exact consistent_of_numbers hwhole ns

end Terms

namespace Request

variable {typeOf : Value → Except Failure Value}

/-- What meets an inclusion does not meet the exclusion of the same operand. -/
theorem not_excludes_of_includes {d : Reading} {f : String × Value} (h : includes typeOf d f) :
    ¬ excludes typeOf d f := by
  obtain ⟨fieldType, included, htype, hincluded, v, hv, hholds⟩ := h
  rintro ⟨fieldType', excluded, htype', hexcluded, hnone⟩
  obtain rfl := Except.ok.inj (htype.symm.trans htype')
  have hsublist := (Terms.consistent_of_ofOperand hincluded hexcluded).sublist
  exact hnone ⟨v, hsublist.subset hv, hholds⟩

/-- An operand can be ruled out wherever it can be asked for. -/
theorem hasClause_exclusion_iff_inclusion (f : String × Value) :
    HasClause (exclusionClause typeOf) f ↔ HasClause (inclusionClause typeOf) f := by
  rw [hasClause_exclusion_iff, hasClause_inclusion_iff]
  simp only [exists_and_left, ← Terms.exists_areWritable_included_iff]

/-- The two readings of an operand are consistent, for every kind of field, and an operand has both
readings or none.  A request that includes an operand of a field, unless it is a coordinate to sort
by, can be compiled with an exclusion of it at any place if it can be without, and then no document
satisfies the query any more. -/
theorem readings_consistent (v : Value) :
    (∀ fieldType,
      ((∃ ts, Terms.ofOperand false fieldType v = .ok ts) ↔
        ∃ ts, Terms.ofOperand true fieldType v = .ok ts) ∧
      ∀ included excluded, Terms.ofOperand false fieldType v = .ok included →
        Terms.ofOperand true fieldType v = .ok excluded → Terms.Consistent v included excluded) ∧
    ∀ (typeOf : Value → Except Failure Value) (r : Request) (defaults : List Value)
      (geoField : Value) (field : String) (before after : List (String × Value)),
      (field, v) ∈ r.filters → ¬ (r.geoOrder ∧ (field = "lat" ∨ field = "lon")) →
      r.exclusions = before ++ after →
      ((∃ body, compile defaults typeOf geoField
          { r with exclusions := before ++ (field, v) :: after } = .ok body) ↔
        ∃ body, r.compile defaults typeOf geoField = .ok body) ∧
      ∀ body, compile defaults typeOf geoField
          { r with exclusions := before ++ (field, v) :: after } = .ok body →
        ∀ d : Reading, ¬ d.satisfies body.query.toValue := by
  constructor
  · intro fieldType
    exact ⟨Terms.exists_included_iff fieldType v, fun _ _ => Terms.consistent_of_ofOperand⟩
  · intro typeOf r defaults geoField field before after hfilter hfield hexclusions
    have hmem : (field, v) ∈ r.inclusions := (mem_inclusions_iff r _).mpr ⟨hfilter, hfield⟩
    constructor
    · rw [exists_compile_iff, exists_compile_iff, hexclusions]
      simp only [List.forall_mem_append, List.forall_mem_cons]
      constructor
      · rintro ⟨hframed, hin, hbefore, _, hafter⟩
        exact ⟨⟨hframed.sorted, hframed.text, hframed.window⟩, hin, hbefore, hafter⟩
      · rintro ⟨hframed, hin, hbefore, hafter⟩
        have hclause := (hasClause_exclusion_iff_inclusion _).mpr (hin _ hmem)
        exact ⟨⟨hframed.sorted, hframed.text, hframed.window⟩, hin, hbefore, hclause, hafter⟩
    · intro body hbody d hsatisfies
      rw [satisfies_query hbody d] at hsatisfies
      obtain ⟨_, hincluded, hexcluded⟩ := hsatisfies
      exact not_excludes_of_includes (hincluded (field, v) hmem)
        (hexcluded (field, v) (List.mem_append_right before List.mem_cons_self))

/-- A request for countries that are asked for and ruled out by one operand. -/
def contraryRequest : Request where
  text := ""
  fields := none
  filters := [("name", .text "true"), ("country_id", .text "0,4,0")]
  exclusions := [("country_id", .text "0,4,0")]
  sort := []
  geo := none
  geoOrder := false
  page := 1
  perPage := 50

/-- The body of `contraryRequest`. -/
def contraryBody : SearchBody where
  query := .compound none [.terms "name" [.bool true], .terms "country_id" [.int 4],
    .compound none [] (some (.terms "country_id" [.int 0, .int 4, .int 0]))] none
  sort := []
  offset := 0
  size := 50

theorem compile_contraryRequest : contraryRequest.compile [] (fun _ => .ok .null)
    (.text "lat_lon") = .ok contraryBody :=
  compile_of_writable (by decide +kernel) rfl rfl rfl

/-- An operand with zeros, read both ways, and in a request that includes and excludes it. -/
theorem readings_consistent_contraryRequest :
    Terms.Consistent (.text "0,4,0") [.int 4] [.int 0, .int 4, .int 0] ∧
      (∃ body, compile [] (fun _ => .ok .null) (.text "lat_lon")
        { contraryRequest with exclusions := [] } = .ok body) ∧
      contraryRequest.compile [] (fun _ => .ok .null) (.text "lat_lon") = .ok contraryBody ∧
      ∀ d : Reading, ¬ d.satisfies contraryBody.query.toValue := by
  obtain ⟨hread, hrequest⟩ := readings_consistent (.text "0,4,0")
  obtain ⟨hcompile, hnone⟩ := hrequest (fun _ => .ok .null)
    { contraryRequest with exclusions := [] } [] (.text "lat_lon") "country_id" [] []
    (List.mem_cons_of_mem _ List.mem_cons_self) (by simp [contraryRequest]) rfl
  exact ⟨(hread .null).2 _ _ rfl rfl, hcompile.mp ⟨_, compile_contraryRequest⟩,
    compile_contraryRequest, hnone contraryBody compile_contraryRequest⟩

end Request

end Typeahead
