import Typeahead.Proofs.FieldTypes.Shapes
import Typeahead.Proofs.Mapping.Declared
import Typeahead.Proofs.Mapping.Layout

/-!
# Types of the fields of an index

The type of a field is the one that the index body declares.  `Index.declared` is what is looked
up there, and it has the searched attributes for names.  Only a field that is not declared has the
type of its column.
-/

namespace Typeahead

open Value

namespace Property

/-- A named attribute has a property once one of its forms is declared. -/
theorem text_mem_attrs_declare (ps : List Property) (s : SubField) (f : String) :
    .text f ∈ (declare ps s).map (·.attr) ↔ .text f ∈ ps.map (·.attr) ∨ s.attr = .text f := by
  induction ps with
  | nil => simp [declare, eq_comm]
  | cons p ps ih =>
      rw [declare]
      split
      · next hsame =>
        simp only [List.map_cons]
        constructor
        · exact Or.inl
        · rintro (h | h)
          · exact h
          · rw [h, same_text_right_iff] at hsame
            rw [hsame]
            exact List.mem_cons_self
      · rw [List.map_cons, List.map_cons, List.mem_cons, List.mem_cons, ih, or_assoc]

theorem text_mem_attrs_foldl (fs : List SubField) (ps : List Property) (f : String) :
    .text f ∈ (fs.foldl declare ps).map (·.attr) ↔
      .text f ∈ ps.map (·.attr) ∨ ∃ s ∈ fs, s.attr = .text f := by
  induction fs generalizing ps with
  | nil => simp
  | cons s fs ih =>
      rw [List.foldl_cons, ih, text_mem_attrs_declare, or_assoc, List.exists_mem_cons_iff]

/-- What is found among properties under a name. -/
theorem lookup_entries_eq_some {ps : List Property} {f : String} {property : Value}
    (h : (entries ps).lookup (.text f) = some property) :
    .text f ∈ ps.map (·.attr) ∧ property.under "type" = .text "text" := by
  induction ps with
  | nil => cases h
  | cons p ps ih =>
      rw [entries, List.map_cons, Entries.lookup_cons_text] at h
      split at h
      · next hp =>
        obtain rfl := Option.some.inj h
        exact ⟨List.mem_cons.mpr (Or.inl hp.symm), rfl⟩
      · exact ⟨List.mem_cons_of_mem _ (ih h).1, (ih h).2⟩

theorem lookup_entries_isSome {ps : List Property} {f : String} (h : .text f ∈ ps.map (·.attr)) :
    ∃ property, (entries ps).lookup (.text f) = some property := by
  induction ps with
  | nil => cases h
  | cons p ps ih =>
      rw [entries, List.map_cons, Entries.lookup_cons_text]
      by_cases hp : p.attr = .text f
      · exact ⟨p.toValue, if_pos hp⟩
      · rw [if_neg hp]
        exact ih ((List.mem_cons.mp h).resolve_left fun heq => hp heq.symm)

end Property

namespace FieldTypes

/-- An index body is looked up by its properties. -/
theorem ofMapping_toValue (b : IndexBody) :
    ofMapping b.toValue = .ok (.properties (IndexBody.propertiesOf b.toValue)) :=
  calc ofMapping b.toValue
      = ofMapping (Shape.body.write (Property.entries b.properties)) := ofMapping_of_mappings rfl
    _ = .ok (.properties (IndexBody.propertiesOf b.toValue)) := ofMapping_write trivial

theorem typeIn_eq (v : Value) : typeIn v = (v.under "type").orElse .null := by
  cases v with
  | dict config => rfl
  | _ => rfl

/-- What is declared for a field is the type of the field. -/
theorem resolve_of_declared {entries : Entries} {f : String} {property : Value}
    (h : entries.lookup (.text f) = some property) (htype : property.under "type" = .text "text")
    (others : List FieldTypes) :
    resolve (.text f) (.chain (.properties entries :: others)) = .ok (property.under "type") := by
  have hfound : typeIn (entries.get f) = .text "text" := by
    rw [Entries.get, h, typeIn_eq, Option.getD_some, htype]
    rfl
  rw [resolve_cons (resolve_properties entries f), hfound, htype]
  rfl

/-- The type of a field that is not declared is that of its column. -/
theorem resolve_column {entries : Entries} {f : String} (h : entries.lookup (.text f) = none)
    {model : Model} {t : Table} (ht : model.table = some t) {c : Column}
    (hc : t.attribute? f = some c) :
    ∃ fieldType, resolve (.text f) (.chain [.properties entries, .model model]) = .ok fieldType ∧
      (fieldType.same (.text "boolean") = true ↔ c.type.visitName = "boolean") := by
  have hnone : typeIn (entries.get f) = .null := by
    rw [Entries.get, h]
    rfl
  have hcolumn : resolve (.text f) (.model model) = .ok (.text c.type.visitName) := by
    rw [resolve, ht]
    exact (Outcome.bind_eq_ok_iff _ _ _).mpr ⟨f, rfl, by rw [hc]; rfl⟩
  have hsources : resolve (.text f) (.chain [.properties entries, .model model]) =
      if (Value.text c.type.visitName).truthy then .ok (.text c.type.visitName) else .ok .null := by
    rw [resolve_cons (resolve_properties entries f), hnone]
    exact resolve_cons hcolumn []
  rw [hsources]
  split
  · exact ⟨_, rfl, by rw [same_text_right_iff, text.injEq]⟩
  · next hempty =>
    have hname : c.type.visitName = "" := by simpa [truthy] using hempty
    exact ⟨_, rfl, by simp [same, hname]⟩

end FieldTypes

namespace SubField

theorem attr_of_ofAttribute {mode : Mode} {attr : Value} {fs : List SubField}
    (h : ofAttribute mode attr = .ok fs) {s : SubField} (hs : s ∈ fs) : s.attr = attr := by
  obtain ⟨rest, hrest, hfs⟩ := (Outcome.bind_eq_ok_iff _ _ _).mp h
  rw [← (Outcome.pure_eq_ok_iff _ _).mp hfs] at hs
  rcases List.mem_cons.mp hs with rfl | hs
  · rfl
  · refine (Outcome.forall_mem_of_mapM hrest fun s => s.attr = attr).mpr ?_ s hs
    intro tag _ s hs
    obtain ⟨a, _, hs⟩ := (Outcome.bind_eq_ok_iff _ _ _).mp hs
    rw [← (Outcome.pure_eq_ok_iff _ _).mp hs]

end SubField

namespace Index

open IndexBody

variable {env : Environment} {model : Model} {attr : Value} {given : Option Settings}
  {options : Options} {index : Index}

/-- Every form belongs to a searched attribute. -/
theorem Derived.attr_mem (h : index.Derived) {s : SubField} (hs : s ∈ index.subFields) :
    s.attr ∈ index.searchAttrs := by
  obtain ⟨attrs, groups, hlined, hsubFields⟩ :=
    FieldSpec.groups_of_allSubFields (mode_of_fieldSpecs h.specs) h.subFields
  rw [searchAttrs]
  rw [hsubFields] at hs ⊢
  clear hsubFields
  induction hlined with
  | nil => cases hs
  | cons ha _ ih =>
      rw [List.flatten_cons, List.filter_append, List.map_append,
        SubField.raw_of_ofAttribute ha]
      rw [List.flatten_cons] at hs
      rcases List.mem_append.mp hs with hs | hs
      · rw [SubField.attr_of_ofAttribute ha hs]
        exact List.mem_append_left _ (List.mem_singleton_self _)
      · exact List.mem_append_right _ (ih hs)

/-- The properties of the index body, none without a body. -/
def declared (index : Index) : Entries :=
  (index.body.map fun b => propertiesOf b.toValue).getD []

theorem fieldTypes_of_create (h : create env model attr given options = .ok index) :
    index.fieldTypes = .chain [.properties index.declared, .model model] := by
  obtain ⟨source, hsource, hchain⟩ :=
    (Outcome.bind_eq_ok_iff _ _ _).mp (create_eq_ok_iff.mp h).fieldTypes
  rw [← (Outcome.pure_eq_ok_iff _ _).mp hchain, declared]
  cases hbody : index.body with
  | none =>
      rw [hbody] at hsource
      obtain rfl := Except.ok.inj hsource
      rfl
  | some b =>
      rw [hbody] at hsource
      obtain rfl := Except.ok.inj ((FieldTypes.ofMapping_toValue b).symm.trans hsource)
      rfl

theorem Derived.properties_eq (h : index.Derived) {b : IndexBody} (hbody : index.body = some b) :
    b.properties = index.subFields.foldl Property.declare [] := by
  have hindex := h.body
  rw [hbody, indexBody] at hindex
  split at hindex
  · cases hindex
  · obtain ⟨made, hmade, hb⟩ := (Outcome.bind_eq_ok_iff _ _ _).mp hindex
    obtain rfl := Option.some.inj ((Outcome.pure_eq_ok_iff _ _).mp hb)
    obtain ⟨properties, hproperties, hlast⟩ := (Outcome.bind_eq_ok_iff _ _ _).mp hmade
    rw [← (Outcome.pure_eq_ok_iff _ _).mp hlast]
    rw [Property.ofSubFields] at hproperties
    split at hproperties
    · exact (Except.ok.inj hproperties).symm
    · cases hproperties

/-- An index body has properties for the searched attributes. -/
theorem Derived.text_mem_attrs_iff (h : index.Derived) {b : IndexBody}
    (hbody : index.body = some b) (f : String) :
    .text f ∈ b.properties.map (·.attr) ↔ .text f ∈ index.searchAttrs := by
  rw [h.properties_eq hbody, Property.text_mem_attrs_foldl]
  constructor
  · rintro (hnil | ⟨s, hs, hattr⟩)
    · cases hnil
    · exact hattr ▸ h.attr_mem hs
  · intro hattr
    obtain ⟨s, hs, hattr⟩ := List.mem_map.mp hattr
    exact Or.inr ⟨s, List.mem_of_mem_filter hs, hattr⟩

theorem declared_of_body {b : IndexBody} (hbody : index.body = some b) :
    index.declared = Property.entries b.properties := by
  rw [declared, hbody]
  rfl

/-- What is declared is searched, and all of it is text. -/
theorem Derived.of_lookup_declared (h : index.Derived) {f : String} {property : Value}
    (hproperty : index.declared.lookup (.text f) = some property) :
    .text f ∈ index.searchAttrs ∧ property.under "type" = .text "text" := by
  cases hbody : index.body with
  | none =>
      rw [declared, hbody] at hproperty
      cases hproperty
  | some b =>
      rw [declared_of_body hbody] at hproperty
      obtain ⟨hmem, htype⟩ := Property.lookup_entries_eq_some hproperty
      exact ⟨(h.text_mem_attrs_iff hbody f).mp hmem, htype⟩

/-- What is searched is declared, if the index has a body. -/
theorem Derived.exists_lookup_declared (h : index.Derived) {b : IndexBody}
    (hbody : index.body = some b) {f : String} (hf : .text f ∈ index.searchAttrs) :
    ∃ property, index.declared.lookup (.text f) = some property := by
  rw [declared_of_body hbody]
  exact Property.lookup_entries_isSome ((h.text_mem_attrs_iff hbody f).mpr hf)

end Index

end Typeahead
