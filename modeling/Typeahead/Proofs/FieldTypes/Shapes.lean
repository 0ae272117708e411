import Typeahead.Proofs.FieldTypes.Chains

/-!
# Shapes of a mapping

Properties can be handed over in an index body, in its mappings, or bare, `FieldTypes.Shape`.  The
shape is told from the names that a mapping has, so bare properties are `Recognized` when no field
has the name of a part around them.  In every recognized shape they are the same source, which
answers with the type of a field, `Entries.HasType`, alone and in front of other sources.  With a
field of such a name that field alone counts, and no way of reading mappings does better:
properties in their mappings are also bare properties, of one field called properties.
-/

namespace Typeahead

namespace FieldTypes

/-- A type that is not empty stands in a mapping. -/
theorem exists_of_typeIn {v : Value} (h : (typeIn v).truthy = true) :
    ∃ config, v = .dict config ∧ typeIn v = Entries.get config "type" := by
  cases v with
  | dict config =>
      rw [typeIn, Value.orElse] at h ⊢
      split at h
      · next htype => exact ⟨config, rfl, if_pos htype⟩
      · cases h
  | _ => cases h

theorem typeIn_eq_null {v : Value} (h : (typeIn v).truthy = false) : typeIn v = .null := by
  cases v with
  | dict config =>
      rw [typeIn, Value.orElse] at h ⊢
      split at h
      · next htype => exact absurd htype (Bool.eq_false_iff.mp h)
      · next htype => exact if_neg htype
  | _ => rfl

end FieldTypes

namespace Entries

open FieldTypes

theorem lookup_of_get {entries : Entries} {name : String} (h : entries.get name ≠ .null) :
    entries.lookup (.text name) = some (entries.get name) := by
  rw [get] at h ⊢
  cases hfound : entries.lookup (.text name) with
  | none =>
      rw [hfound] at h
      exact absurd rfl h
  | some found => rfl

/-- The configuration of a field is a mapping with a type that is not empty. -/
def Types (properties : Entries) (f : String) (t : Value) : Prop :=
  ∃ config : Entries, properties.lookup (.text f) = some (.dict config) ∧
    config.lookup (.text "type") = some t ∧ t.truthy = true

/-- The type of a field by properties, null without one. -/
inductive HasType (properties : Entries) (f : String) : Value → Prop
  | typed {t : Value} (h : properties.Types f t) : HasType properties f t
  | untyped (h : ∀ t, ¬ properties.Types f t) : HasType properties f .null

theorem types_iff {properties : Entries} {f : String} {t : Value} :
    properties.Types f t ↔ typeIn (properties.get f) = t ∧ t.truthy = true := by
  constructor
  · rintro ⟨config, hconfig, htype, ht⟩
    have hget : config.get "type" = t := by rw [get, htype, Option.getD_some]
    rw [get, hconfig, Option.getD_some, typeIn, hget]
    exact ⟨if_pos ht, ht⟩
  · rintro ⟨rfl, ht⟩
    obtain ⟨config, hconfig, htype⟩ := exists_of_typeIn ht
    have hfield : properties.get f ≠ .null := by
      rw [hconfig]
      exact nofun
    have hnull : Entries.get config "type" ≠ .null := by
      intro heq
      rw [htype, heq] at ht
      cases ht
    rw [htype] at ht ⊢
    exact ⟨config, hconfig ▸ lookup_of_get hfield, lookup_of_get hnull, ht⟩

/-- A field has one type. -/
theorem hasType_iff {properties : Entries} {f : String} {fieldType : Value} :
    properties.HasType f fieldType ↔ typeIn (properties.get f) = fieldType := by
  constructor
  · intro h
    cases h with
    | typed h => exact (types_iff.mp h).1
    | untyped h =>
        exact typeIn_eq_null (Bool.eq_false_iff.mpr fun ht => h _ (types_iff.mpr ⟨rfl, ht⟩))
  · rintro rfl
    cases ht : (typeIn (properties.get f)).truthy with
    | true => exact .typed (types_iff.mpr ⟨rfl, ht⟩)
    | false =>
        rw [typeIn_eq_null ht]
        refine .untyped fun t h => ?_
        obtain ⟨rfl, htruthy⟩ := types_iff.mp h
        exact absurd htruthy (Bool.eq_false_iff.mp ht)

end Entries

namespace FieldTypes

/-- How properties are handed over. -/
inductive Shape where
  | body
  | mappings
  | bare
  deriving DecidableEq, Repr

namespace Shape

/-- Properties in a shape. -/
def write (properties : Entries) : Shape → Value
  | .body => .dict [(.text "mappings", .dict [(.text "properties", .dict properties)])]
  | .mappings => .dict [(.text "properties", .dict properties)]
  | .bare => .dict properties

/-- Properties in a shape are not taken for another shape. -/
def Recognized (properties : Entries) : Shape → Prop
  | .bare => properties.lookup (.text "mappings") = none ∧
      properties.lookup (.text "properties") = none
  | _ => True

end Shape

theorem orElse_dict (entries : Entries) :
    (Value.dict entries).orElse (.dict []) = .dict entries := by
  cases entries with
  | nil => rfl
  | cons e entries => rfl

section Inner

variable {key : String} {entries : Entries}

theorem inner_of_some {found : Value} (h : entries.lookup (.text key) = some found) :
    inner key (.dict entries) = .ok (found.orElse (.dict [])) := by
  rw [inner, h]

theorem inner_of_none (h : entries.lookup (.text key) = none) :
    inner key (.dict entries) = .ok (.dict entries) := by
  rw [inner, h]

theorem ofMapping_of_inner {mappings : Value}
    (h : inner "mappings" (.dict entries) = .ok mappings) :
    ofMapping (.dict entries) =
      inner "properties" mappings >>= fun found => .properties <$> entriesOf found := by
  rw [ofMapping, orElse_dict, h]
  rfl

/-- Of a mapping with mappings in it nothing else counts. -/
theorem ofMapping_of_mappings {v : Value} (h : entries.lookup (.text "mappings") = some v) :
    ofMapping (.dict entries) = ofMapping (.dict [(.text "mappings", v)]) := by
  have hsingle : Entries.lookup [(.text "mappings", v)] (.text "mappings") = some v := rfl
  rw [ofMapping_of_inner (inner_of_some h), ofMapping_of_inner (inner_of_some hsingle)]

/-- Of a mapping with properties in it, and no mappings, nothing else counts. -/
theorem ofMapping_of_properties {v : Value} (hnone : entries.lookup (.text "mappings") = none)
    (h : entries.lookup (.text "properties") = some v) :
    ofMapping (.dict entries) = ofMapping (.dict [(.text "properties", v)]) := by
  have hsingle : Entries.lookup [(.text "properties", v)] (.text "properties") = some v := rfl
  rw [ofMapping_of_inner (inner_of_none hnone), ofMapping_of_inner (inner_of_none rfl),
    inner_of_some h, inner_of_some hsingle]

end Inner

/-- Properties in a recognized shape are kept as they are. -/
theorem ofMapping_write {properties : Entries} {shape : Shape} (h : shape.Recognized properties) :
    ofMapping (shape.write properties) = .ok (.properties properties) := by
  cases shape with
  | body =>
      rw [Shape.write, ofMapping_of_inner (inner_of_some rfl), orElse_dict, inner_of_some rfl,
        orElse_dict]
      rfl
  | mappings =>
      rw [Shape.write, ofMapping_of_inner (inner_of_none rfl), inner_of_some rfl, orElse_dict]
      rfl
  | bare =>
      rw [Shape.write, ofMapping_of_inner (inner_of_none h.1), inner_of_none h.2]
      rfl

/-- Properties are asked for the type in the configuration of a field. -/
theorem resolve_properties (entries : Entries) (f : String) :
    resolve (.text f) (.properties entries) = .ok (typeIn (entries.get f)) := rfl

/-- Properties give the type of a field in every shape that they are recognized in.  In front of
other sources, in chains of any kind, their answer counts unless it is empty, and if it is, the
other sources are asked as if alone. -/
theorem shapes_answer_alike (properties : Entries) (f : String) :
    ∃ fieldType, properties.HasType f fieldType ∧
      ∀ shape : Shape, shape.Recognized properties →
        ∃ source, ofMapping (shape.write properties) = .ok source ∧
          resolve (.text f) source = .ok fieldType ∧
          ∀ sources rest, leavesOf sources = leavesOf (source :: rest) →
            (fieldType.truthy = true → resolve (.text f) (.chain sources) = .ok fieldType) ∧
            (fieldType.truthy = false → ∀ outcome,
              resolve (.text f) (.chain sources) = outcome ↔
                FirstAnswer (.text f) rest outcome) := by
  refine ⟨_, Entries.hasType_iff.mpr rfl, fun shape hshape => ?_⟩
  have hanswer := resolve_properties properties f
  refine ⟨_, ofMapping_write hshape, hanswer, fun sources rest hleaves => ?_⟩
  have hchain : resolve (.text f) (.chain sources) =
      resolveFirst (.text f) (.properties properties :: rest) :=
    (resolve_chain_eq_iff hleaves).mpr (firstAnswer_resolveFirst _ _)
  rw [resolveFirst_cons hanswer] at hchain
  constructor
  · intro htype
    rw [hchain, if_pos htype]
  · intro hempty outcome
    rw [hchain, if_neg (Bool.eq_false_iff.mp hempty), resolveFirst_eq_iff]

/-- The fields of shops, one of them without a type. -/
def shopFields : Entries :=
  [(.text "active", .dict [(.text "type", .text "boolean")]),
    (.text "name", .dict [(.text "fields", .dict [])])]

/-- Shops with a name. -/
def shop : Model := ⟨"Shop", some ⟨"shops", [⟨"name", "name", .generic .string, false, true⟩]⟩⟩

/-- A source within chains, in front of the columns of shops. -/
def shopSources (source : FieldTypes) : List FieldTypes :=
  [.chain [.chain [], .chain [source]], .model shop]

/-- Bare fields of shops, asked for with and without a type of their own. -/
theorem shapes_answer_alike_shops : Shape.bare.Recognized shopFields ∧
    ∃ source, ofMapping (Shape.bare.write shopFields) = .ok source ∧
      leavesOf (shopSources source) = leavesOf [source, .model shop] ∧
      resolve (.text "active") (.chain (shopSources source)) = .ok (.text "boolean") ∧
      resolve (.text "name") (.chain (shopSources source)) = .ok (.text "string") := by
  have hshape : Shape.bare.Recognized shopFields := ⟨rfl, rfl⟩
  obtain ⟨active, hactive, hshapes⟩ := shapes_answer_alike shopFields "active"
  obtain ⟨name, hname, hothers⟩ := shapes_answer_alike shopFields "name"
  obtain rfl := Entries.hasType_iff.mp hactive
  obtain rfl := Entries.hasType_iff.mp hname
  obtain ⟨source, hsource, -, htyped⟩ := hshapes .bare hshape
  obtain ⟨other, hother, -, huntyped⟩ := hothers .bare hshape
  obtain rfl := Except.ok.inj (hsource.symm.trans hother)
  obtain rfl := Except.ok.inj (hsource.symm.trans (ofMapping_write hshape))
  obtain ⟨hboolean, -⟩ := htyped (shopSources (.properties shopFields)) [.model shop] rfl
  obtain ⟨-, hcolumn⟩ := huntyped (shopSources (.properties shopFields)) [.model shop] rfl
  refine ⟨hshape, _, hsource, rfl, hboolean rfl, (hcolumn rfl _).mpr ?_⟩
  exact firstAnswer_resolveFirst (.text "name") [.model shop]

/-- The fields of agencies, one of them called properties. -/
def agencyFields : Entries :=
  [(.text "active", .dict [(.text "type", .text "boolean")]),
    (.text "properties", .dict [(.text "type", .text "keyword")])]

/-- Fields that can be asked for in their mappings are hidden when they are bare. -/
theorem exists_field_hidden : ∃ bare mappings,
    ofMapping (Shape.bare.write agencyFields) = .ok bare ∧
    ofMapping (Shape.mappings.write agencyFields) = .ok mappings ∧
    agencyFields.HasType "active" (.text "boolean") ∧
    resolve (.text "active") mappings = .ok (.text "boolean") ∧
    resolve (.text "active") bare = .ok .null := by
  have hbare : ofMapping (Shape.bare.write agencyFields) =
      ofMapping (Shape.mappings.write [(.text "type", .text "keyword")]) :=
    ofMapping_of_properties rfl rfl
  exact ⟨_, _, hbare.trans (ofMapping_write trivial), ofMapping_write trivial,
    Entries.hasType_iff.mpr rfl, rfl, rfl⟩

/-- No way of reading gives the types of all fields in all shapes. -/
theorem exists_misread (read : Value → String → Value) :
    ∃ (shape : Shape) (properties : Entries) (f : String), properties ≠ [] ∧
      ¬ properties.HasType f (read (shape.write properties) f) := by
  by_contra! h
  -- Fields in their mappings are written like one bare field that is called properties.
  have hboolean := Entries.hasType_iff.mp (h .mappings shopFields "active" nofun)
  have hnull := Entries.hasType_iff.mp
    (h .bare [(.text "properties", .dict shopFields)] "active" nofun)
  have hsame : Value.text "boolean" = .null := hboolean.trans hnull.symm
  cases hsame

end FieldTypes

end Typeahead
