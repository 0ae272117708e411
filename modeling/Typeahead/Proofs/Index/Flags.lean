import Typeahead.Index.Search
import Typeahead.Proofs.Index.Resolving
import Typeahead.Proofs.Search.Blanks
import Typeahead.Proofs.Terms.Operands

/-!
# Filters on fields of truth values

One and zero stand for yes and no in fields of the type `boolean`.  Everywhere else they are
numbers, and an inclusion drops a zero.  A column has the type by the name at the bottom of its
decorators, `ColumnType.bottom`, and of the types of truth values only the generic one has that
name.
-/

namespace Typeahead

open Value

namespace ColumnType

/-- The type that values are stored as, below all decorators. -/
def bottom : ColumnType → ColumnType
  | .decorated stored => stored.bottom
  | type => type

theorem visitName_bottom (type : ColumnType) : type.bottom.visitName = type.visitName := by
  induction type with
  | decorated stored ih => exact ih
  | _ => rfl

/-- Whether values are truth values: the generic type of these at the bottom, or the type of the
database. -/
def IsBoolean (type : ColumnType) : Prop :=
  type.bottom = .generic .boolean ∨ type.bottom = .native "BOOLEAN"

/-- Of the types of truth values the generic one has the name that filters know. -/
theorem IsBoolean.visitName_eq_iff {type : ColumnType} (h : type.IsBoolean) :
    type.visitName = "boolean" ↔ type.bottom = .generic .boolean := by
  rw [← visitName_bottom]
  rcases h with h | h
  · simp [h, visitName, ColumnKind.visitName]
  · simp [h, visitName]

end ColumnType

namespace Terms

/-- Whether an operand is one or zero, as a digit or as a number. -/
def IsFlag (b : Bool) (v : Value) : Prop :=
  v = .text (if b then "1" else "0") ∨ v = .int (ofBool b)

/-- The terms of a flag: a truth value in a field of these, and otherwise a number. -/
def flagTerms (isBoolean allowZero b : Bool) : List Value :=
  if isBoolean then [.bool b] else ofNumbers allowZero [ofBool b]

theorem areWritable_flagTerms (isBoolean allowZero b : Bool) :
    areWritable (flagTerms isBoolean allowZero b) = true := by
  have hflags : ∀ n ∈ [ofBool b], Numeral.exceedsLimit n = false := by
    intro n hn
    rw [List.mem_singleton.mp hn]
    cases b with
    | true => decide +kernel
    | false => decide +kernel
  cases isBoolean with
  | true => rfl
  | false => exact areWritable_ofNumbers hflags allowZero

theorem ofText_flag (b : Bool) : ofText (if b then "1" else "0").toList = .ok [ofBool b] := by
  cases b with
  | true => rfl
  | false => rfl

theorem plain_flag {b : Bool} {v : Value} (h : IsFlag b v) :
    v.plain? = .ok (if b then "1" else "0") := by
  have hwritable : v.isWritable = true := by
    rcases h with rfl | rfl
    · rfl
    · cases b with
      | true => decide +kernel
      | false => decide +kernel
  rw [plain?, if_pos hwritable]
  rcases h with rfl | rfl
  · rfl
  · cases b with
    | true => rfl
    | false => rfl

theorem says_flag {b : Bool} {v : Value} (h : IsFlag b v) (isBoolean : Bool) :
    saysYes isBoolean v = (isBoolean && b) ∧ saysNo isBoolean v = (isBoolean && !b) := by
  rcases h with rfl | rfl
  · cases b <;> cases isBoolean <;> decide
  · cases b <;> cases isBoolean <;> decide

theorem ofOperand_flag {b : Bool} {v : Value} (h : IsFlag b v) (allowZero : Bool)
    (fieldType : Value) : ofOperand allowZero fieldType v =
      .ok (flagTerms (fieldType.same (.text "boolean")) allowZero b) := by
  have hwhole : ¬ IsWhole v := by
    rcases h with rfl | rfl
    · simp [IsWhole]
    · simp [IsWhole]
  have hnull : v ≠ .null := by
    rcases h with rfl | rfl
    · simp
    · simp
  have hempty : v.same (.text "") = false := by
    rcases h with rfl | rfl
    · cases b <;> rfl
    · rfl
  obtain ⟨hyes, hno⟩ := says_flag h (fieldType.same (.text "boolean"))
  rw [ofOperand_of_not_isWhole hwhole hnull, hempty, if_neg Bool.false_ne_true]
  cases hboolean : fieldType.same (.text "boolean") with
  | true =>
      rw [hboolean] at hyes hno
      cases b with
      | true => rw [ofScalar, hyes]; rfl
      | false => rw [ofScalar, hyes, hno]; rfl
  | false =>
      rw [hboolean] at hyes hno
      rw [ofScalar_eq allowZero hyes hno, plain_flag h]
      show (ofText _).map _ = _
      rw [ofText_flag]
      rfl

end Terms

namespace Index

open IndexBody

variable {env : Environment} {model : Model} {attr : Value} {given : Option Settings}
  {options : Options} {index : Index}

/-- How the flags among the filters of one field are compiled: each in its place, by the terms that
it stands for where it includes or excludes. -/
structure FlagClauses (r : Request) (clauses : List Query) (field : String)
    (terms : Bool → Bool → List Value) : Prop where
  inclusion : ∀ (i : Nat) b v, Terms.IsFlag b v → r.inclusions[i]? = some (field, v) →
    clauses[i]? = some (Query.terms field (terms false b))
  exclusion : ∀ (i : Nat) b v, Terms.IsFlag b v → r.exclusions[i]? = some (field, v) →
    clauses[r.inclusions.length + i]? =
      some (Query.compound none [] (some (.terms field (terms true b))))

section Compiling

variable {typeOf : Value → Except Failure Value} {field : String} {fieldType : Value}

theorem inclusionClause_flag (h : typeOf (.text field) = .ok fieldType) {b : Bool} {v : Value}
    (hv : Terms.IsFlag b v) : Request.inclusionClause typeOf (field, v) =
      .ok (.terms field (Terms.flagTerms (fieldType.same (.text "boolean")) false b)) :=
  (Request.inclusionClause_eq_ok_iff _ _).mpr
    ⟨fieldType, _, h, Terms.ofOperand_flag hv false fieldType, rfl⟩

theorem exclusionClause_flag (h : typeOf (.text field) = .ok fieldType) {b : Bool} {v : Value}
    (hv : Terms.IsFlag b v) : Request.exclusionClause typeOf (field, v) = .ok (.compound none []
      (some (.terms field (Terms.flagTerms (fieldType.same (.text "boolean")) true b)))) :=
  (Request.exclusionClause_eq_ok_iff _ _).mpr
    ⟨fieldType, _, h, Terms.ofOperand_flag hv true fieldType, rfl⟩

theorem flagClauses (h : typeOf (.text field) = .ok fieldType) {r : Request}
    {clauses : List Query} (hclauses : r.clauses typeOf = .ok clauses) :
    FlagClauses r clauses field (Terms.flagTerms (fieldType.same (.text "boolean"))) := by
  obtain ⟨included, hincluded, hrest⟩ := (Outcome.bind_eq_ok_iff _ _ _).mp hclauses
  obtain ⟨excluded, hexcluded, happend⟩ := (Outcome.bind_eq_ok_iff _ _ _).mp hrest
  obtain rfl := (Outcome.pure_eq_ok_iff _ _).mp happend
  have hlength : included.length = r.inclusions.length :=
    ((Outcome.mapM_eq_ok_iff _ _ _).mp hincluded).length_eq.symm
  constructor
  · intro i b v hv hi
    obtain ⟨q, hq, hclause⟩ := Outcome.getElem?_of_mapM hincluded hi
    obtain rfl := Except.ok.inj ((inclusionClause_flag h hv).symm.trans hclause)
    rw [List.getElem?_append_left (List.getElem?_eq_some_iff.mp hq).1, hq]
  · intro i b v hv hi
    obtain ⟨q, hq, hclause⟩ := Outcome.getElem?_of_mapM hexcluded hi
    obtain rfl := Except.ok.inj ((exclusionClause_flag h hv).symm.trans hclause)
    rw [← hlength, List.getElem?_append_right (Nat.le_add_right _ _), Nat.add_sub_cancel_left, hq]

end Compiling

/-- A filter on a column of truth values that is not searched is compiled from the flags one and
zero, whatever the rest of the request: to truth values if the type at the bottom of the column is
the generic one, and otherwise to numbers.  What the index body declares, which is all that is
searched, is of the type declared there whatever its column. -/
theorem flags_of_create (h : create env model attr given options = .ok index) :
    (∀ t field c, model.table = some t → t.attribute? field = some c → c.type.IsBoolean →
      .text field ∉ index.searchAttrs →
      (∀ b v, Terms.IsFlag b v →
        Request.HasClause (Request.inclusionClause index.fieldTypes.resolve) (field, v) ∧
          Request.HasClause (Request.exclusionClause index.fieldTypes.resolve) (field, v)) ∧
      ∀ text call r body, index.request text call = .ok r →
        index.buildQuery text call = .ok body →
        ∃ clauses, body.query = Request.combine (r.textCondition index.searchFields) clauses ∧
          FlagClauses r clauses field
            (Terms.flagTerms (decide (c.type.bottom = .generic .boolean)))) ∧
    ∀ field body, index.body = some body →
      (.text field ∈ index.searchAttrs → ∃ property,
        (propertiesOf body.toValue).lookup (.text field) = some property) ∧
      ∀ property, (propertiesOf body.toValue).lookup (.text field) = some property →
        property.under "type" ≠ .null ∧
          index.fieldTypes.resolve (.text field) = .ok (property.under "type") := by
  have hderived := derived_of_create h
  constructor
  · intro t field c ht hc hboolean hsearched
    have hnone : index.declared.lookup (.text field) = none := by
      rw [Option.eq_none_iff_forall_ne_some]
      intro property hproperty
      exact hsearched (hderived.of_lookup_declared hproperty).1
    obtain ⟨fieldType, htype, hsame⟩ := FieldTypes.resolve_column hnone ht hc
    rw [← fieldTypes_of_create h] at htype
    have hflag : fieldType.same (.text "boolean") = decide (c.type.bottom = .generic .boolean) := by
      rw [Bool.eq_iff_iff, hsame, hboolean.visitName_eq_iff, decide_eq_true_iff]
    constructor
    · intro b v hv
      exact ⟨⟨_, inclusionClause_flag htype hv,
          (Query.isWritable_terms _ _).trans (Terms.areWritable_flagTerms _ _ _)⟩,
        _, exclusionClause_flag htype hv,
          (Query.isWritable_not_terms _ _).trans (Terms.areWritable_flagTerms _ _ _)⟩
    · intro text call r body hrequest hbody
      obtain ⟨r', hr', hrest⟩ := (Outcome.bind_eq_ok_iff _ _ _).mp hbody
      obtain rfl := Except.ok.inj (hrequest.symm.trans hr')
      obtain ⟨geoField, _, hcompile⟩ := (Outcome.bind_eq_ok_iff _ _ _).mp hrest
      obtain ⟨clauses, hclauses, hquery⟩ := Request.query_of_compile hcompile
      exact ⟨clauses, hquery, hflag ▸ flagClauses htype hclauses⟩
  · intro field body hbody
    have hdeclared : index.declared = propertiesOf body.toValue := declared_of_body hbody
    rw [← hdeclared]
    refine ⟨hderived.exists_lookup_declared hbody, fun property hproperty => ?_⟩
    have htype := (hderived.of_lookup_declared hproperty).2
    refine ⟨by rw [htype]; exact Value.noConfusion, ?_⟩
    rw [fieldTypes_of_create h]
    exact FieldTypes.resolve_of_declared hproperty htype _

/-- Cities that may be capitals or lie at the sea; what they are is stored in two ways. -/
def harborTable : Table := ⟨"cities",
  [⟨"id", "id", .generic .integer, true, false⟩, ⟨"name", "name", .generic .string, false, true⟩,
    ⟨"capital", "capital", .decorated (.generic .boolean), false, true⟩,
    ⟨"coastal", "coastal", .native "BOOLEAN", false, true⟩]⟩

/-- Their index with the standard settings. -/
def harborIndex : Except Failure Index :=
  create ⟨[], none⟩ ⟨"City", some harborTable⟩ .null (some ⟨.standard, .standard⟩) []

/-- A call for cities by flags of both columns. -/
def harborCall : Options :=
  [("filters", .list [.list [.text "capital", .text "0"], .list [.text "coastal", .text "0"]]),
    ("exclusions", .list [.list [.text "coastal", .text "1"], .list [.text "capital", .int 1]])]

/-- The request of `harborCall`. -/
def harborRequest : Request where
  text := ""
  fields := none
  filters := [("capital", .text "0"), ("coastal", .text "0")]
  exclusions := [("coastal", .text "1"), ("capital", .int 1)]
  sort := []
  geo := none
  geoOrder := false
  page := 1
  perPage := 50

/-- The body of `harborRequest`. -/
def harborBody : SearchBody where
  query := .compound none [.terms "capital" [.bool false], .terms "coastal" [],
    .compound none [] (some (.terms "coastal" [.int 1])),
    .compound none [] (some (.terms "capital" [.bool true]))] none
  sort := []
  offset := 0
  size := 50

theorem buildQuery_harborIndex : ∃ index, harborIndex = .ok index ∧
    index.searchAttrs = [.text "name"] ∧ index.body.isSome = true ∧
    index.request (.text "") harborCall = .ok harborRequest ∧
    index.buildQuery (.text "") harborCall = .ok harborBody := by
  have hattrs : harborIndex.map searchAttrs = .ok [.text "name"] := rfl
  have hsome : harborIndex.map (fun index => index.body.isSome) = .ok true := rfl
  have hrequest : (harborIndex >>= fun index => index.request (.text "") harborCall) =
      .ok harborRequest := rfl
  have hgeo : (harborIndex >>= fun index => requiredOption index.options "geo_field") =
      .ok (.text "lat_lon") := rfl
  have hclauses : (harborIndex >>= fun index => harborRequest.clauses index.fieldTypes.resolve) =
      .ok [.terms "capital" [.bool false], .terms "coastal" [],
        .compound none [] (some (.terms "coastal" [.int 1])),
        .compound none [] (some (.terms "capital" [.bool true]))] := rfl
  cases h : harborIndex with
  | error e =>
      rw [h] at hattrs
      cases hattrs
  | ok index =>
      rw [h] at hattrs hsome hrequest hgeo hclauses
      refine ⟨index, rfl, Except.ok.inj hattrs, Except.ok.inj hsome, hrequest, ?_⟩
      refine (Outcome.bind_eq_ok_iff _ _ _).mpr ⟨_, hrequest, ?_⟩
      refine (Outcome.bind_eq_ok_iff _ _ _).mpr ⟨_, hgeo, ?_⟩
      exact Request.compile_of_writable (by decide +kernel) rfl hclauses rfl

/-- The flags of one column are truth values, by the name that the type at the bottom has. -/
theorem flags_of_create_harborIndex : ∃ index, harborIndex = .ok index ∧
    index.searchAttrs = [.text "name"] ∧
    (∃ clauses, index.request (.text "") harborCall = .ok harborRequest ∧
      index.buildQuery (.text "") harborCall = .ok harborBody ∧
      harborBody.query = Request.combine none clauses ∧
      clauses[0]? = some (.terms "capital" [.bool false]) ∧
      clauses[3]? = some (.compound none [] (some (.terms "capital" [.bool true])))) ∧
    ∃ body property, index.body = some body ∧
      (propertiesOf body.toValue).lookup (.text "name") = some property ∧
      index.fieldTypes.resolve (.text "name") = .ok (property.under "type") := by
  obtain ⟨index, hindex, hattrs, hsome, hrequest, hbody⟩ := buildQuery_harborIndex
  have hsearched : .text "capital" ∉ index.searchAttrs := by
    rw [hattrs]
    decide
  obtain ⟨hflags, hdeclared⟩ := flags_of_create hindex
  obtain ⟨_, hquery⟩ := hflags harborTable "capital" _ rfl rfl (Or.inl rfl) hsearched
  obtain ⟨clauses, hclauses, hread⟩ := hquery _ _ _ _ hrequest hbody
  obtain ⟨body, hsome⟩ := Option.isSome_iff_exists.mp hsome
  obtain ⟨hpresent, htype⟩ := hdeclared "name" body hsome
  have hname : .text "name" ∈ index.searchAttrs := by
    rw [hattrs]
    exact List.mem_singleton_self _
  obtain ⟨property, hproperty⟩ := hpresent hname
  refine ⟨index, hindex, hattrs, ⟨clauses, hrequest, hbody, hclauses, ?_, ?_⟩,
    body, property, hsome, hproperty, (htype property hproperty).2⟩
  · exact hread.inclusion 0 false _ (Or.inl rfl) rfl
  · exact hread.exclusion 1 true _ (Or.inr rfl) rfl

/-- In a column of the database's own truth values a filter by zero is dropped. -/
theorem exists_flag_dropped : ∃ index c, harborIndex = .ok index ∧
    harborTable.attribute? "coastal" = some c ∧ c.type.IsBoolean ∧
    .text "coastal" ∉ index.searchAttrs ∧
    index.request (.text "") harborCall = .ok harborRequest ∧
    harborRequest.inclusions[1]? = some ("coastal", .text "0") ∧
    index.buildQuery (.text "") harborCall = .ok harborBody ∧
    ∃ filters, harborBody.query = .compound none filters none ∧
      filters[1]? = some (.terms "coastal" []) := by
  obtain ⟨index, hindex, hattrs, _, hrequest, hbody⟩ := buildQuery_harborIndex
  have hsearched : .text "coastal" ∉ index.searchAttrs := by
    rw [hattrs]
    decide
  exact ⟨index, _, hindex, rfl, Or.inr rfl, hsearched, hrequest, rfl, hbody, _, rfl, rfl⟩

end Index

end Typeahead
