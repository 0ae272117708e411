import Typeahead.Proofs.Mapping.Declared
import Typeahead.Proofs.Mapping.Layout

/-!
# Fields that are searched and fields that are declared

An index is searched by paths, its body declares properties and analyzers, and its documents
have attributes.  Each of the three is derived from the forms of the index by itself.
`Index.Agrees` says that they fit, for a body in the form that is sent: what is searched is
declared, what is declared is searched, every searched attribute is in every document, and
every analyzer that a field refers to is defined.
-/

namespace Typeahead

namespace Entries

theorem mem_keys_insert (entries : Entries) (n : String) (value key : Value) :
    key ∈ (insert entries (.text n) value).map (·.1) ↔
      key ∈ entries.map (·.1) ∨ key = .text n := by
  rw [map_insert]
  split
  · next hany =>
      obtain ⟨k, hk, hsame⟩ := List.any_eq_true.mp hany
      rw [Value.same_text_right_iff] at hsame
      rw [hsame] at hk
      constructor
      · exact Or.inl
      · rintro (h | rfl)
        · exact h
        · exact hk
  · rw [List.mem_append, List.mem_singleton]

theorem mem_keys_overlay {entries top : Entries} (htop : top.Named) (key : Value) :
    key ∈ (overlay entries top).map (·.1) ↔
      key ∈ entries.map (·.1) ∨ key ∈ top.map (·.1) := by
  induction top generalizing entries with
  | nil => simp [overlay]
  | cons e top ih =>
      obtain ⟨n, hn⟩ := htop e List.mem_cons_self
      have htop : Entries.Named top := fun d hd => htop d (List.mem_cons_of_mem e hd)
      rw [overlay, List.foldl_cons, ← overlay, ih htop, hn, mem_keys_insert, List.map_cons,
        List.mem_cons, hn, or_assoc]

end Entries

namespace SubField

/-- The flat name of an analyzed form is longer than the name of its attribute. -/
theorem flatName_ne (tag : Tag) (n : String) : tag.lead ++ "_" ++ n ≠ n := by
  intro h
  have hlength := congrArg String.length h
  have hunderscore : "_".length = 1 := rfl
  rw [String.length_append, String.length_append, hunderscore] at hlength
  omega

/-- A raw form is declared with its type alone. -/
theorem under_of_raw (attr name : Value) {role : String} (h : role ≠ "type") :
    (raw attr name).declaration.under role = .null := by
  have hne : ¬ "type" = role := fun heq => h heq.symm
  simp [declaration, isRaw_raw, Value.under, Value.entries, Entries.get, Entries.lookup,
    Value.same, hne]

/-- What an analyzed form is declared with, apart from its weight. -/
theorem declaration_form (mode : Mode) (n : String) (tag : Tag) :
    (form mode n tag).declaration = .dict ((.text "type", .text "text") ::
      (.text "analyzer", .text tag.analyzer) ::
      (.text "search_analyzer", .text searchAnalyzer) :: (form mode n tag).boostEntries) := rfl

theorem analyzer_of_form (mode : Mode) (n : String) (tag : Tag) :
    (form mode n tag).declaration.under "analyzer" = .text tag.analyzer := by
  rw [declaration_form]
  simp [Value.under, Value.entries, Entries.get, Entries.lookup, Value.same]

theorem searchAnalyzer_of_form (mode : Mode) (n : String) (tag : Tag) :
    (form mode n tag).declaration.under "search_analyzer" = .text searchAnalyzer := by
  rw [declaration_form]
  simp [Value.under, Value.entries, Entries.get, Entries.lookup, Value.same]

end SubField

namespace IndexBody

/-- The tokenizers that a backend has by itself, as far as they are used. -/
def builtInTokenizers : List Value := [.text "standard", .text "keyword"]

/-- The filters that a backend has by itself, as far as they are used. -/
def builtInFilters : List Value := [.text "lowercase", .text "asciifolding"]

/-- Whether an index body defines an analyzer together with all that it is built from. -/
def Defines (body name : Value) : Prop :=
  ∃ analyzer filters, (definitionsOf body "analyzer").lookup name = some analyzer ∧
    analyzer.under "filter" = .list filters ∧
    (analyzer.under "tokenizer" ∈ builtInTokenizers ∨
      (definitionsOf body "tokenizer").has (analyzer.under "tokenizer") = true) ∧
    ∀ filter ∈ filters, filter ∈ builtInFilters ∨
      (definitionsOf body "filter").has filter = true

/-- The standard analysis defines the analyzers of all tags. -/
theorem defines_tag (properties : List Property) (tag : Tag) :
    Defines (toValue ⟨.standard, properties⟩) (.text tag.analyzer) := by
  cases tag with
  | base =>
      refine ⟨_, _, rfl, rfl, Or.inr rfl, fun filter hfilter => Or.inl ?_⟩
      exact hfilter
  | word =>
      refine ⟨_, _, rfl, rfl, Or.inl (List.mem_cons_self), fun filter hfilter => ?_⟩
      rcases List.mem_append.mp (show filter ∈ builtInFilters ++ [.text "ac_edge_ngram"] from
        hfilter) with h | h
      · exact Or.inl h
      · rw [List.mem_singleton.mp h]
        exact Or.inr rfl
  | full =>
      refine ⟨_, _, rfl, rfl, Or.inl (List.mem_cons_of_mem _ List.mem_cons_self),
        fun filter hfilter => ?_⟩
      rcases List.mem_append.mp (show filter ∈ builtInFilters ++ [.text "ac_edge_ngram"] from
        hfilter) with h | h
      · exact Or.inl h
      · rw [List.mem_singleton.mp h]
        exact Or.inr rfl

/-- The standard analysis defines the analyzer for typed text. -/
theorem defines_searchAnalyzer (properties : List Property) :
    Defines (toValue ⟨.standard, properties⟩) (.text SubField.searchAnalyzer) := by
  refine ⟨_, _, rfl, rfl, Or.inl (List.mem_cons_of_mem _ List.mem_cons_self),
    fun filter hfilter => Or.inl ?_⟩
  exact hfilter

end IndexBody

namespace Index

open IndexBody

/-- A body in the form that is sent fits what an index searches and what it stores. -/
structure Agrees (index : Index) (body : Value) : Prop where
  /-- Behind the paths of the analyzed forms come the searched attributes, in order. -/
  raw_fields : ∃ paths,
    (index.subFields.filter fun s => !s.isRaw).mapM SubField.searchPaths = .ok paths ∧
      index.searchFields = paths.flatten ++ index.searchAttrs
  /-- The properties are those of the searched attributes, each once. -/
  property_keys : ((propertiesOf body).map (·.1)).Nodup ∧
    ∀ a, a ∈ (propertiesOf body).map (·.1) ↔ a ∈ index.searchAttrs
  /-- Every object has a document, and every searched attribute is in it. -/
  document_keys : ∀ object, ∃ doc, index.document object = .ok doc ∧
    ∀ a ∈ index.searchAttrs, a ∈ doc.entries.map (·.1)
  /-- An analyzed form is searched by its path, and its names lead to a multi-field that is
  analyzed. -/
  searched_declared : ∀ s ∈ index.subFields, s.isRaw = false →
    ∃ a n config, s.attr = .text a ∧ s.name = .text n ∧ s.nestedPath = .ok (.text (a ++ "." ++ n)) ∧
      .text (a ++ "." ++ n) ∈ index.searchFields ∧
      multiField? body (.text a) (.text n) = some config ∧ config.under "analyzer" ≠ .null
  /-- A multi-field that is analyzed is searched by its path and by its flat name. -/
  declared_searched : ∀ attr name config, multiField? body attr name = some config →
    config.under "analyzer" ≠ .null → ∃ a n, attr = .text a ∧ name = .text n ∧
      .text (a ++ "." ++ n) ∈ index.searchFields ∧ .text n ∈ index.searchFields
  /-- Every analyzer that a multi-field refers to is defined. -/
  analyzers_defined : ∀ attr name config, multiField? body attr name = some config →
    ∀ role ∈ ["analyzer", "search_analyzer"], config.under role ≠ .null →
      Defines body (config.under role)

/-- The body of an index, if it is to have one. -/
def standardBody (index : Index) : IndexBody :=
  ⟨.standard, index.subFields.foldl Property.declare []⟩

namespace LaidOut

variable {index : Index} {names : List String} (h : index.LaidOut names)

include h

theorem named : ∀ s ∈ index.subFields, s.Named := by
  intro s hs
  obtain ⟨n, _, rfl | ⟨tag, rfl⟩⟩ := h.raw_or_form hs
  · exact ⟨n, n, rfl, rfl⟩
  · exact ⟨n, _, rfl, rfl⟩

theorem body_eq (hskip : (option index.options "skip_settings").truthy = false) :
    index.body = some index.standardBody := by
  have hbody := h.body
  rw [indexBody, hskip, IndexBody.ofSubFields, Property.ofSubFields_eq h.named] at hbody
  exact (Except.ok.inj hbody).symm

theorem property_keys : ((propertiesOf index.standardBody.toValue).map (·.1)).Nodup ∧
    ∀ a, a ∈ (propertiesOf index.standardBody.toValue).map (·.1) ↔ a ∈ index.searchAttrs := by
  rw [attrs_of_toValue]
  refine ⟨Property.nodup_attrs_foldl h.named List.nodup_nil, fun a => ?_⟩
  rw [standardBody, Property.mem_attrs_foldl h.named, List.map_nil]
  constructor
  · rintro (hnil | ⟨s, hs, rfl⟩)
    · cases hnil
    · rw [h.attrs]
      obtain ⟨n, hn, rfl | ⟨tag, rfl⟩⟩ := h.raw_or_form hs
      · exact List.mem_map_of_mem hn
      · exact List.mem_map_of_mem hn
  · intro ha
    obtain ⟨s, hs, rfl⟩ := List.mem_map.mp ha
    exact Or.inr ⟨s, List.mem_of_mem_filter hs, rfl⟩

/-- The document of any object is made, and it has the searched attributes. -/
theorem document_keys (object : Options) : ∃ doc, index.document object = .ok doc ∧
    ∀ a ∈ index.searchAttrs, a ∈ doc.entries.map (·.1) := by
  have hattrs : index.documentAttrs = ("id" :: "created_at" :: names).map Value.text := by
    rw [documentAttrs, h.attrs]
    rfl
  obtain ⟨entries, hentries⟩ :
      ∃ entries, index.documentAttrs.mapM (documentEntry object) = .ok entries := by
    rw [hattrs]
    generalize "id" :: "created_at" :: names = attrs
    induction attrs with
    | nil => exact ⟨[], rfl⟩
    | cons n attrs ih =>
        obtain ⟨entries, hentries⟩ := ih
        rw [List.map_cons, List.mapM_cons, hentries]
        exact ⟨_, rfl⟩
  have hdocument : index.document object = .ok (.dict (Entries.ofList entries)) := by
    rw [document, hentries]
    rfl
  refine ⟨_, hdocument, fun a ha => ?_⟩
  obtain ⟨others, hothers, hkeys, hvalues⟩ := document_eq_ok hdocument
  have hmem : a ∈ others.map (·.1) := by
    rw [hkeys, documentAttrs]
    exact List.mem_append_right _ ha
  rw [hothers]
  exact (Entries.mem_keys_overlay (Entries.named_of_values hvalues) a).mpr (Or.inr hmem)

/-- A multi-field of the body is the declaration of a form. -/
theorem form_of_multiField? {attr name config : Value}
    (hfield : multiField? index.standardBody.toValue attr name = some config) :
    ∃ s ∈ index.subFields, s.attr = attr ∧ s.name = name ∧ config = s.declaration := by
  rw [multiField?_toValue] at hfield
  have hworded := Property.worded_foldl h.named fun p hp => absurd hp List.not_mem_nil
  obtain ⟨a, n, rfl, rfl⟩ := texts_of_field? hworded hfield
  obtain ⟨s, hs, hgoes, hconfig⟩ := Property.exists_of_field?_foldl h.named hfield
  exact ⟨s, hs, hgoes.1, hgoes.2, hconfig⟩

theorem searched_declared {s : SubField} (hs : s ∈ index.subFields) (hraw : s.isRaw = false) :
    ∃ a n config, s.attr = .text a ∧ s.name = .text n ∧
      s.nestedPath = .ok (.text (a ++ "." ++ n)) ∧ .text (a ++ "." ++ n) ∈ index.searchFields ∧
      multiField? index.standardBody.toValue (.text a) (.text n) = some config ∧
      config.under "analyzer" ≠ .null := by
  obtain ⟨n, _, rfl | ⟨tag, rfl⟩⟩ := h.raw_or_form hs
  · cases hraw
  · have hsome := (Property.isSome_field?_foldl_iff h.named _ _).mpr ⟨_, hs, rfl, rfl⟩
    obtain ⟨config, hconfig⟩ := Option.isSome_iff_exists.mp hsome
    have hfield := (multiField?_toValue index.standardBody _ _).trans hconfig
    refine ⟨n, _, config, rfl, rfl, rfl, (h.searched hs).1, hfield, ?_⟩
    obtain ⟨t, ht, hattr, hname, rfl⟩ := h.form_of_multiField? hfield
    obtain ⟨m, _, rfl | ⟨other, rfl⟩⟩ := h.raw_or_form ht
    · have hm : m = n := Value.text.inj hattr
      have hflat : m = tag.lead ++ "_" ++ n := Value.text.inj hname
      exact absurd (hflat.symm.trans hm) (SubField.flatName_ne tag n)
    · rw [SubField.analyzer_of_form]
      exact Value.noConfusion

theorem declared_searched {attr name config : Value}
    (hconfig : multiField? index.standardBody.toValue attr name = some config)
    (hanalyzer : config.under "analyzer" ≠ .null) : ∃ a n, attr = .text a ∧ name = .text n ∧
      .text (a ++ "." ++ n) ∈ index.searchFields ∧ .text n ∈ index.searchFields := by
  obtain ⟨s, hs, rfl, rfl, rfl⟩ := h.form_of_multiField? hconfig
  obtain ⟨n, _, rfl | ⟨tag, rfl⟩⟩ := h.raw_or_form hs
  · exact absurd (SubField.under_of_raw _ _ (by decide)) hanalyzer
  · exact ⟨n, _, rfl, rfl, h.searched hs⟩

theorem analyzers_defined {attr name config : Value}
    (hconfig : multiField? index.standardBody.toValue attr name = some config) {role : String}
    (hrole : role ∈ ["analyzer", "search_analyzer"]) (hne : config.under role ≠ .null) :
    Defines index.standardBody.toValue (config.under role) := by
  obtain ⟨s, hs, rfl, rfl, rfl⟩ := h.form_of_multiField? hconfig
  obtain ⟨n, _, rfl | ⟨tag, rfl⟩⟩ := h.raw_or_form hs
  · refine absurd (SubField.under_of_raw _ _ ?_) hne
    rintro rfl
    simp at hrole
  · rcases List.mem_cons.mp hrole with rfl | hrole
    · rw [SubField.analyzer_of_form]
      exact defines_tag _ tag
    · rw [List.mem_singleton.mp hrole, SubField.searchAnalyzer_of_form]
      exact defines_searchAnalyzer _

end LaidOut

/-- Every index that brings its own body searches what it declares, declares what it searches,
stores all that it searches and defines the analyzers that it refers to. -/
theorem agrees_of_create {env : Environment} {model : Model} {attr : Value}
    {given : Option Settings} {options : Options} {index : Index}
    (h : create env model attr given options = .ok index)
    (hskip : (option index.options "skip_settings").truthy = false)
    (hnamed : ∀ a ∈ index.searchAttrs, ∃ n, a = .text n) :
    ∃ body, index.body = some body ∧ index.Agrees body.toValue := by
  obtain ⟨names, hlaid⟩ := (derived_of_create h).laidOut hnamed
  obtain ⟨paths, hpaths, hfields⟩ := (Outcome.bind_eq_ok_iff _ _ _).mp hlaid.searchFields
  refine ⟨index.standardBody, hlaid.body_eq hskip, ?_⟩
  exact {
    raw_fields := ⟨paths, hpaths, ((Outcome.pure_eq_ok_iff _ _).mp hfields).symm⟩
    property_keys := hlaid.property_keys
    document_keys := hlaid.document_keys
    searched_declared := fun _ => hlaid.searched_declared
    declared_searched := fun _ _ _ => hlaid.declared_searched
    analyzers_defined := fun _ _ _ hconfig _ => hlaid.analyzers_defined hconfig }

/-- Cities are searched in full mode by a name, which is listed twice, and by a title. -/
def cityIndex : Except Failure Index :=
  create ⟨[], none⟩ ⟨"City", none⟩ .null (some ⟨.standard, .standard⟩)
    [("search_attrs", .list [.text "name", .text "title", .text "name"]), ("mode", .text "full")]

theorem agrees_of_create_cityIndex : ∃ index, cityIndex = .ok index ∧
    (option index.options "skip_settings").truthy = false ∧
    index.searchAttrs = [.text "name", .text "title", .text "name"] ∧
    ∃ body, index.body = some body ∧ index.Agrees body.toValue := by
  have hattrs : cityIndex.map searchAttrs = .ok [.text "name", .text "title", .text "name"] := rfl
  have hskip : cityIndex.map (fun index => (option index.options "skip_settings").truthy) =
      .ok false := rfl
  cases h : cityIndex with
  | error e =>
      rw [h] at hattrs
      cases hattrs
  | ok index =>
      rw [h] at hattrs hskip
      have hnames : index.searchAttrs = [.text "name", .text "title", .text "name"] :=
        Except.ok.inj hattrs
      refine ⟨index, rfl, Except.ok.inj hskip, hnames, ?_⟩
      refine agrees_of_create h (Except.ok.inj hskip) fun a ha => ?_
      rw [hnames] at ha
      simp only [List.mem_cons, List.not_mem_nil, or_false] at ha
      rcases ha with rfl | rfl | rfl
      · exact ⟨_, rfl⟩
      · exact ⟨_, rfl⟩
      · exact ⟨_, rfl⟩

end Index

end Typeahead
