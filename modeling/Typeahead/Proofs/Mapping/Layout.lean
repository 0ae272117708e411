import Typeahead.Index.Basic
import Typeahead.Proofs.Outcome

/-!
# How the forms of an index are laid out

An index is made for attributes that are stored under several names, and all of them have
the mode of the index.  Its forms stand in one list: for each name the raw form, followed by
the analyzed forms of the mode, `SubField.forms`.  Names may repeat.
-/

namespace Typeahead

namespace SubField

/-- The analyzed form of a named attribute for a tag. -/
def form (mode : Mode) (name : String) (tag : Tag) : SubField where
  attr := .text name
  name := .text (tag.lead ++ "_" ++ name)
  tag := .text tag.name
  analyzer := .text tag.analyzer
  boost := .int (mode.boost tag)
  fieldType := .text "text"

/-- All forms of a named attribute. -/
def forms (mode : Mode) (name : String) : List SubField :=
  raw (.text name) (.text name) :: mode.tags.map (form mode name)

theorem isRaw_raw (attr name : Value) : (raw attr name).isRaw = true := rfl

theorem isRaw_of_analyzed {mode : Mode} {attr : Value} {tag : Tag} {s : SubField}
    (h : analyzed mode attr tag = .ok s) : s.isRaw = false := by
  obtain ⟨a, _, hs⟩ := (Outcome.bind_eq_ok_iff _ _ _).mp h
  rw [← (Outcome.pure_eq_ok_iff _ _).mp hs]
  rfl

/-- An analyzed form is searched by its path and by its flat name. -/
theorem searchPaths_form (mode : Mode) (name : String) (tag : Tag) :
    (form mode name tag).searchPaths =
      .ok [.text (name ++ "." ++ (tag.lead ++ "_" ++ name)), .text (tag.lead ++ "_" ++ name)] := rfl

/-- Of the forms of one attribute the first one is raw, and no other. -/
theorem raw_of_ofAttribute {mode : Mode} {attr : Value} {fs : List SubField}
    (h : ofAttribute mode attr = .ok fs) : fs.filter isRaw = [raw attr attr] := by
  obtain ⟨rest, hrest, hfs⟩ := (Outcome.bind_eq_ok_iff _ _ _).mp h
  have hanalyzed : rest.filter isRaw = [] := by
    have hlined := (Outcome.mapM_eq_ok_iff _ _ _).mp hrest
    clear h hrest hfs
    generalize mode.tags = tags at hlined
    induction hlined with
    | nil => rfl
    | cons hs _ ih => rw [List.filter_cons, isRaw_of_analyzed hs, if_neg (by simp), ih]
  rw [← (Outcome.pure_eq_ok_iff _ _).mp hfs, List.filter_cons, isRaw_raw, if_pos rfl, hanalyzed]

/-- All forms of an attribute with a name are there. -/
theorem ofAttribute_text (mode : Mode) (name : String) :
    ofAttribute mode (.text name) = .ok (forms mode name) := by
  cases mode with
  | _ => rfl

end SubField

namespace FieldSpec

/-- The forms of several specifications of one mode are those of their stored names, group
by group. -/
theorem groups_of_allSubFields {mode : Mode} {specs : List FieldSpec} {fs : List SubField}
    (hmode : ∀ spec ∈ specs, spec.mode = mode) (h : allSubFields specs = .ok fs) :
    ∃ attrs groups, List.Forall₂ (fun a g => SubField.ofAttribute mode a = .ok g) attrs groups ∧
      fs = groups.flatten := by
  obtain ⟨found, hfound, hfs⟩ := (Outcome.bind_eq_ok_iff _ _ _).mp h
  rw [← (Outcome.pure_eq_ok_iff _ _).mp hfs]
  have hlined := (Outcome.mapM_eq_ok_iff _ _ _).mp hfound
  clear h hfound hfs
  induction hlined with
  | nil => exact ⟨[], [], List.Forall₂.nil, rfl⟩
  | @cons spec fields specs found hspec _ ih =>
      obtain ⟨attrs, groups, hgroups, hrest⟩ := ih fun s hs => hmode s (List.mem_cons_of_mem _ hs)
      obtain ⟨mine, _, hmine⟩ := (Outcome.bind_eq_ok_iff _ _ _).mp hspec
      obtain ⟨forms, hforms, hfields⟩ := (Outcome.bind_eq_ok_iff _ _ _).mp hmine
      have hlinedForms := (Outcome.mapM_eq_ok_iff _ _ _).mp hforms
      rw [hmode spec List.mem_cons_self] at hlinedForms
      refine ⟨mine ++ attrs, forms ++ groups, List.rel_append hlinedForms hgroups, ?_⟩
      rw [List.flatten_cons, hrest, List.flatten_append, ← (Outcome.pure_eq_ok_iff _ _).mp hfields]

end FieldSpec

namespace Index

/-- Every specification of an index has the mode of the index. -/
theorem mode_of_fieldSpecs {options : Options} {attr : Value} {mode : Mode}
    {specs : List FieldSpec} (h : fieldSpecs options attr mode = .ok specs) :
    ∀ spec ∈ specs, spec.mode = mode := by
  intro spec hspec
  rw [fieldSpecs] at h
  split at h
  · split at h
    · rw [← (Outcome.pure_eq_ok_iff _ _).mp h] at hspec
      obtain ⟨name, _, rfl⟩ := List.mem_map.mp hspec
      rfl
    · cases h
  · obtain ⟨localized, _, h⟩ := (Outcome.bind_eq_ok_iff _ _ _).mp h
    split at h
    · rw [← (Outcome.pure_eq_ok_iff _ _).mp h] at hspec
      rw [List.mem_singleton.mp hspec]
    · cases h

/-- What the parts of an index were made from. -/
structure Derived (index : Index) : Prop where
  specs : fieldSpecs index.options index.attr index.mode = .ok index.specs
  subFields : FieldSpec.allSubFields index.specs = .ok index.subFields
  searchFields : SubField.searchFields index.subFields = .ok index.searchFields
  body : indexBody index.options index.subFields = .ok index.body

/-- What all of an index was worked out from. -/
structure CreatedFrom (env : Environment) (model : Model) (attr : Value) (given : Option Settings)
    (options : Options) (index : Index) : Prop extends Derived index where
  model_eq : index.model = model
  own : index.ownSettings = given.isSome
  settings : ClientCache.settingsFor env given = .ok index.settings
  options_eq : index.options = Options.override index.settings.autocomplete.toOptions options
  attr_eq : (if attr.truthy then .ok attr else requiredOption index.options "attr") =
    .ok index.attr
  mode : Mode.resolve (option index.options "mode") = .ok index.mode
  name : indexName model index.options = .ok index.name
  fieldTypes : typeSources model index.body = .ok index.fieldTypes

variable {env : Environment} {model : Model} {attr : Value} {given : Option Settings}
  {options : Options} {index : Index}

theorem create_eq_ok_iff :
    create env model attr given options = .ok index ↔
      CreatedFrom env model attr given options index := by
  constructor
  · intro h
    obtain ⟨settings, hsettings, h⟩ := (Outcome.bind_eq_ok_iff _ _ _).mp h
    dsimp only at h
    -- the attribute is the given one or an option, and what follows is the same for both
    split at h
    all_goals
      next htruthy =>
      simp only [Outcome.bind_eq_ok_iff] at h
      obtain ⟨attr, hattr, mode, hmode, specs, hspecs, subFields, hsubFields, searchFields,
        hsearchFields, name, hname, body, hbody, fieldTypes, hfieldTypes, h⟩ := h
      obtain rfl := (Outcome.pure_eq_ok_iff _ _).mp h
      exact {
        specs := hspecs, subFields := hsubFields, searchFields := hsearchFields, body := hbody
        model_eq := rfl, own := rfl, settings := hsettings, options_eq := rfl
        attr_eq := by
          first
          | exact (if_pos htruthy).trans hattr
          | exact (if_neg htruthy).trans hattr
        mode := hmode, name := hname, fieldTypes := hfieldTypes }
  · intro h
    obtain rfl := h.model_eq
    have hattr := h.attr_eq
    refine (Outcome.bind_eq_ok_iff _ _ _).mpr ⟨_, h.settings, ?_⟩
    dsimp only
    rw [← h.options_eq, ← h.own]
    split
    all_goals
      next htruthy =>
      simp only [htruthy, if_true] at hattr
      refine (Outcome.bind_eq_ok_iff _ _ _).mpr ⟨_, hattr, ?_⟩
      refine (Outcome.bind_eq_ok_iff _ _ _).mpr ⟨_, h.mode, ?_⟩
      refine (Outcome.bind_eq_ok_iff _ _ _).mpr ⟨_, h.specs, ?_⟩
      refine (Outcome.bind_eq_ok_iff _ _ _).mpr ⟨_, h.subFields, ?_⟩
      refine (Outcome.bind_eq_ok_iff _ _ _).mpr ⟨_, h.searchFields, ?_⟩
      refine (Outcome.bind_eq_ok_iff _ _ _).mpr ⟨_, h.name, ?_⟩
      refine (Outcome.bind_eq_ok_iff _ _ _).mpr ⟨_, h.body, ?_⟩
      exact (Outcome.bind_eq_ok_iff _ _ _).mpr ⟨_, h.fieldTypes, rfl⟩

theorem derived_of_create (h : create env model attr given options = .ok index) : index.Derived :=
  (create_eq_ok_iff.mp h).toDerived

/-- An index whose searched attributes are names, with its forms written out. -/
structure LaidOut (index : Index) (names : List String) : Prop extends Derived index where
  attrs : index.searchAttrs = names.map .text
  forms : index.subFields = names.flatMap (SubField.forms index.mode)

/-- Once the searched attributes are names, the forms of an index are those of the names, in
order. -/
theorem Derived.laidOut {index : Index} (h : index.Derived)
    (hnamed : ∀ a ∈ index.searchAttrs, ∃ n, a = .text n) : ∃ names, index.LaidOut names := by
  obtain ⟨attrs, groups, hlined, hsubFields⟩ :=
    FieldSpec.groups_of_allSubFields (mode_of_fieldSpecs h.specs) h.subFields
  have hattrs : index.searchAttrs = attrs := by
    rw [searchAttrs, hsubFields]
    clear hsubFields
    induction hlined with
    | nil => rfl
    | cons ha _ ih =>
        rw [List.flatten_cons, List.filter_append, List.map_append,
          SubField.raw_of_ofAttribute ha, ih]
        rfl
  rw [hattrs] at hnamed
  have hforms : ∃ names : List String, attrs = names.map .text ∧
      groups.flatten = names.flatMap (SubField.forms index.mode) := by
    clear hsubFields hattrs
    induction hlined with
    | nil => exact ⟨[], rfl, rfl⟩
    | cons ha _ ih =>
        obtain ⟨n, rfl⟩ := hnamed _ List.mem_cons_self
        obtain ⟨names, hnames, hforms⟩ := ih fun b hb => hnamed b (List.mem_cons_of_mem _ hb)
        refine ⟨n :: names, by rw [List.map_cons, hnames], ?_⟩
        rw [SubField.ofAttribute_text] at ha
        rw [List.flatten_cons, List.flatMap_cons, hforms, Except.ok.inj ha]
  obtain ⟨names, hnames, hforms⟩ := hforms
  exact ⟨names, h, hattrs.trans hnames, hsubFields.trans hforms⟩

namespace LaidOut

variable {index : Index} {names : List String} (h : index.LaidOut names)

include h

theorem raw_or_form {s : SubField} (hs : s ∈ index.subFields) : ∃ n ∈ names,
    s = .raw (.text n) (.text n) ∨ ∃ tag, s = .form index.mode n tag := by
  rw [h.forms] at hs
  obtain ⟨n, hn, hs⟩ := List.mem_flatMap.mp hs
  rcases List.mem_cons.mp hs with rfl | hs
  · exact ⟨n, hn, Or.inl rfl⟩
  · obtain ⟨tag, _, rfl⟩ := List.mem_map.mp hs
    exact ⟨n, hn, Or.inr ⟨tag, rfl⟩⟩

/-- The paths of an analyzed form are among the searched fields. -/
theorem searched {n : String} {tag : Tag} (hs : .form index.mode n tag ∈ index.subFields) :
    .text (n ++ "." ++ (tag.lead ++ "_" ++ n)) ∈ index.searchFields ∧
      .text (tag.lead ++ "_" ++ n) ∈ index.searchFields := by
  obtain ⟨paths, hpaths, hfields⟩ := (Outcome.bind_eq_ok_iff _ _ _).mp h.searchFields
  have hmem : .form index.mode n tag ∈ index.subFields.filter fun s => !s.isRaw :=
    List.mem_filter.mpr ⟨hs, rfl⟩
  obtain ⟨mine, hmine, hpath⟩ := Outcome.exists_of_mapM_eq_ok hpaths hmem
  rw [SubField.searchPaths_form] at hpath
  obtain rfl := Except.ok.inj hpath
  rw [← (Outcome.pure_eq_ok_iff _ _).mp hfields]
  constructor
  · exact List.mem_append_left _ (List.mem_flatten_of_mem hmine List.mem_cons_self)
  · refine List.mem_append_left _ (List.mem_flatten_of_mem hmine ?_)
    exact List.mem_cons_of_mem _ List.mem_cons_self

end LaidOut

end Index

end Typeahead
