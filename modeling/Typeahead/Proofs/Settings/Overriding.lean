import Typeahead.Index.Search
import Typeahead.Proofs.Settings.Reading

/-!
# Options in the place of settings

The options of an index are put on top of its settings as they are, while settings are checked and
brought into one form.  `AutocompleteSettings.TakenAsRead` says of which texts among the options
an index makes the same: it loops over a list, it asks whether a value counts as true, and it reads
a page size like one of a request.  Apart from these texts an option means the same as the setting
of its name, `Index.Alike`.
-/

namespace Typeahead

namespace FieldSpec

/-- Two specifications are equal as values. -/
structure Same (spec other : FieldSpec) : Prop where
  name : spec.name = other.name
  mode : spec.mode = other.mode
  localized : spec.localized.same other.localized = true
  locales : spec.locales = other.locales

/-- Two specifications have the same forms.  They are equal as values, or have no forms for want
of locales. -/
structure Fits (spec other : FieldSpec) : Prop where
  name : spec.name = other.name
  mode : spec.mode = other.mode
  localized : spec.localized.truthy = other.localized.truthy
  locales : spec.locales = other.locales
  same : spec.localized.same other.localized = true ∨
    spec.localized.truthy = true ∧ spec.locales = []

variable {spec other : FieldSpec} {specs others : List FieldSpec}

theorem Fits.subFields_eq (h : spec.Fits other) : spec.subFields = other.subFields := by
  have hattrs : spec.attributes = other.attributes := by
    rw [attributes, attributes, h.name, h.localized, h.locales]
  rw [subFields, subFields, hattrs, h.mode]

theorem Fits.same_of_ok (h : spec.Fits other) {fs : List SubField} (hfs : spec.subFields = .ok fs) :
    spec.Same other := by
  refine ⟨h.name, h.mode, h.same.resolve_right ?_, h.locales⟩
  rintro ⟨hlocalized, hlocales⟩
  obtain ⟨attrs, hattrs, _⟩ := (Outcome.bind_eq_ok_iff _ _ _).mp hfs
  rw [attributes, if_pos hlocalized, hlocales] at hattrs
  obtain ⟨_, _, hmissing⟩ := (Outcome.bind_eq_ok_iff _ _ _).mp hattrs
  cases hmissing

theorem mapM_subFields_eq (h : List.Forall₂ Fits specs others) :
    specs.mapM subFields = others.mapM subFields := by
  induction h with
  | nil => rfl
  | cons hfits _ ih => rw [List.mapM_cons, List.mapM_cons, hfits.subFields_eq, ih]

theorem allSubFields_eq (h : List.Forall₂ Fits specs others) :
    allSubFields specs = allSubFields others := by
  rw [allSubFields, allSubFields, mapM_subFields_eq h]

/-- Specifications that have forms are equal as values. -/
theorem same_of_allSubFields (h : List.Forall₂ Fits specs others) {fs : List SubField}
    (hfs : allSubFields specs = .ok fs) : List.Forall₂ Same specs others := by
  obtain ⟨groups, hgroups, _⟩ := (Outcome.bind_eq_ok_iff _ _ _).mp hfs
  have hforms : ∀ spec ∈ specs, ∃ fs, spec.subFields = .ok fs := fun spec hspec =>
    let ⟨fs, _, hfs⟩ := Outcome.exists_of_mapM_eq_ok hgroups hspec
    ⟨fs, hfs⟩
  clear hgroups hfs
  induction h with
  | nil => exact .nil
  | cons hfits _ ih =>
      obtain ⟨fs, hfs⟩ := hforms _ List.mem_cons_self
      exact .cons (hfits.same_of_ok hfs) (ih fun spec hspec =>
        hforms spec (List.mem_cons_of_mem _ hspec))

end FieldSpec

namespace Value

/-- A loop over what a list of names was read from goes through the names.  A text has to be one
name or none. -/
theorem members_of_readNames {field : String} {v : Value} {names : List String}
    (h : Settings.readNames field v = .ok names)
    (htext : ∀ s, v = .text s → Settings.commaList s = s.toList.map String.singleton) :
    v.truthy = !names.isEmpty ∧ v.members? = some (names.map .text) := by
  rcases Settings.readNames_eq_ok h with rfl | rfl | ⟨s, rfl, rfl⟩
  · exact ⟨by simp [truthy], rfl⟩
  · exact ⟨by simp [truthy], rfl⟩
  · rw [htext s rfl]
    refine ⟨?_, by simp [members?]⟩
    rw [truthy, Bool.eq_iff_iff]
    simp

end Value

namespace Request

/-- A request depends on the page size only through the number that it is read as. -/
theorem ofOptions_congr {o o' : Options}
    (h : ∀ name, name ≠ "per_page" → ∀ d, o.getD name d = o'.getD name d)
    (hsize : positiveInt defaultPerPage (o.getD "per_page" .null) =
      positiveInt defaultPerPage (o'.getD "per_page" .null)) : ofOptions o = ofOptions o' := by
  unfold ofOptions
  rw [h "text" (by decide), h "fields" (by decide), h "filters" (by decide),
    h "exclusions" (by decide), h "sort" (by decide), h "geo" (by decide),
    h "geo_order" (by decide), h "page" (by decide), hsize]

end Request

namespace AutocompleteSettings

/-- The texts among the options that an index takes for what settings read them as. -/
structure TakenAsRead (o : Options) (g : AutocompleteSettings) : Prop where
  /-- Listed attributes are looped over, and a text by its characters. -/
  searchAttrs : ∀ s, o.get? "search_attrs" = some (.text s) →
    Settings.commaList s = s.toList.map String.singleton
  /-- So are locales, unless attributes are listed. -/
  locales : g.searchAttrs.getD [] = [] → ∀ s, o.get? "locales" = some (.text s) →
    Settings.commaList s = s.toList.map String.singleton
  /-- A text is no truth value, which does not show when the locales are missing. -/
  localized : g.searchAttrs.getD [] = [] → ∀ s, o.get? "localized" = some (.text s) →
    g.localized = true ∧ g.locales = []
  /-- A page size with a fraction gives way to the default. -/
  perPage : ∀ s, o.get? "per_page" = some (.text s) → '.' ∈ s.toList →
    g.perPage ≤ 0 ∨ g.perPage = Request.defaultPerPage

theorem readNames_tuple (field : String) (names : List String) :
    Settings.readNames field (.tuple (names.map .text)) = .ok names := by
  simp only [Settings.readNames, Settings.splitCommas, Check.sequence, Value.items?,
    Check.items_texts]

theorem isSome_toOptions (s : AutocompleteSettings) {name : String}
    (h : name ∈ fields.map (·.name)) : (s.toOptions.get? name).isSome = true := by
  simp only [fields, List.map_cons, List.map_nil, List.mem_cons, List.not_mem_nil, or_false] at h
  rcases h with rfl | rfl | rfl | rfl | rfl | rfl | rfl | rfl | rfl
  all_goals rfl

theorem get?_toOptions_of_notMem (s : AutocompleteSettings) {name : String}
    (h : name ∉ fields.map (·.name)) : s.toOptions.get? name = none := by
  refine Option.map_eq_none_iff.mpr (List.find?_eq_none.mpr fun e he heq => h ?_)
  rw [← eq_of_beq heq]
  exact List.mem_map_of_mem he

/-- Settings are read from themselves. -/
theorem reads_toOptions (g : AutocompleteSettings) : Reads g.toOptions g where
  attr := ⟨.text g.attr, rfl, rfl⟩
  localized := ⟨.bool g.localized, rfl, rfl⟩
  mode := ⟨.text g.mode.name, rfl, by cases g.mode <;> rfl⟩
  locales := ⟨.tuple (g.locales.map .text), rfl, readNames_tuple _ _⟩
  searchAttrs := by
    refine ⟨_, rfl, ?_⟩
    cases g.searchAttrs with
    | none => rfl
    | some names =>
        have hread := readNames_tuple "search_attrs" names
        rw [Option.map_some, Option.getD_some, Check.optional, hread]
        exact Value.noConfusion
  indexPrefix := by
    refine ⟨_, rfl, ?_⟩
    cases g.indexPrefix with
    | none => rfl
    | some p => rfl
  commitCallbacks := ⟨.bool g.commitCallbacks, rfl, rfl⟩
  perPage := ⟨.int g.perPage, rfl, rfl⟩
  geoField := ⟨.text g.geoField, rfl, rfl⟩

/-- No setting is kept as text that would have to be read. -/
theorem takenAsRead_toOptions (g : AutocompleteSettings) : TakenAsRead g.toOptions g where
  searchAttrs s hs := by
    have hvalue := Option.some.inj hs
    cases hnames : g.searchAttrs with
    | none =>
        rw [hnames] at hvalue
        cases hvalue
    | some names =>
        rw [hnames] at hvalue
        cases hvalue
  locales _ s hs := by cases Option.some.inj hs
  localized _ s hs := by cases Option.some.inj hs
  perPage s hs := by cases Option.some.inj hs

end AutocompleteSettings

namespace Index

open AutocompleteSettings FieldSpec

variable {o : Options} {g : AutocompleteSettings}

theorem option_of_get? {name : String} {v : Value} (h : o.get? name = some v) :
    option o name = v := by
  rw [option, Options.getD, h, Option.getD_some]

/-- Listed attributes are those that the settings list. -/
theorem searchAttrs_of_reads (hreads : Reads o g) (htaken : TakenAsRead o g) :
    (option o "search_attrs").truthy = !(g.searchAttrs.getD []).isEmpty ∧
      ((option o "search_attrs").truthy = true →
        (option o "search_attrs").members? = some ((g.searchAttrs.getD []).map .text)) := by
  obtain ⟨v, hv, hread⟩ := hreads.searchAttrs
  rw [option_of_get? hv]
  rcases Check.optional_eq_ok hread with ⟨rfl, hnone⟩ | ⟨names, hsome, hnames⟩
  · rw [hnone]
    exact ⟨rfl, fun h => by cases h⟩
  · rw [hsome]
    obtain ⟨htruthy, hmembers⟩ := Value.members_of_readNames hnames fun s hs =>
      htaken.searchAttrs s (hs ▸ hv)
    exact ⟨htruthy, fun _ => hmembers⟩

theorem fieldSpecs_of_listed (hreads : Reads o g) (htaken : TakenAsRead o g)
    (hlisted : g.searchAttrs.getD [] ≠ []) (attr : Value) (mode : Mode) :
    fieldSpecs o attr mode =
      .ok ((g.searchAttrs.getD []).map fun name => ⟨.text name, mode, .bool false, []⟩) := by
  obtain ⟨htruthy, hmembers⟩ := searchAttrs_of_reads hreads htaken
  have htrue : (option o "search_attrs").truthy = true := by
    rw [htruthy, List.isEmpty_eq_false_iff.mpr hlisted]
    rfl
  rw [fieldSpecs, if_pos htrue, hmembers htrue]
  dsimp only
  rw [List.map_map]
  rfl

theorem fieldSpecs_of_single (hreads : Reads o g) (htaken : TakenAsRead o g)
    (hlisted : g.searchAttrs.getD [] = []) (attr : Value) (mode : Mode) :
    ∃ v, o.get? "localized" = some v ∧
      fieldSpecs o attr mode = .ok [⟨attr, mode, v, g.locales.map .text⟩] := by
  obtain ⟨htruthy, _⟩ := searchAttrs_of_reads hreads htaken
  obtain ⟨v, hv, _⟩ := hreads.localized
  obtain ⟨w, hw, hread⟩ := hreads.locales
  obtain ⟨hwtruthy, hmembers⟩ := Value.members_of_readNames hread fun s hs =>
    htaken.locales hlisted s (hs ▸ hw)
  have hlocales : ((option o "locales").orElse (.tuple [])).members? =
      some (g.locales.map .text) := by
    rw [option_of_get? hw, Value.orElse]
    split
    · exact hmembers
    · next hfalse =>
      have hnone : g.locales = [] := by simpa [hwtruthy] using hfalse
      rw [hnone]
      rfl
  refine ⟨v, hv, ?_⟩
  rw [fieldSpecs, htruthy, hlisted, requiredOption, hv, hlocales]
  rfl

/-- The specifications from the options fit those from the settings. -/
theorem fieldSpecs_fit (hreads : Reads o g) (htaken : TakenAsRead o g) (attr : Value)
    (mode : Mode) : Outcome.Agree (List.Forall₂ Fits) (fieldSpecs o attr mode)
      (fieldSpecs g.toOptions attr mode) := by
  by_cases hlisted : g.searchAttrs.getD [] = []
  · obtain ⟨v, hv, hspecs⟩ := fieldSpecs_of_single hreads htaken hlisted attr mode
    obtain ⟨w, hw, hspecs'⟩ := fieldSpecs_of_single (reads_toOptions g) (takenAsRead_toOptions g)
      hlisted attr mode
    obtain rfl : .bool g.localized = w := Option.some.inj hw
    obtain ⟨v', hv', hread⟩ := hreads.localized
    obtain rfl : v = v' := Option.some.inj (hv.symm.trans hv')
    rw [hspecs, hspecs']
    refine .ok (.cons ?_ .nil)
    rcases Check.same_of_readBool (Check.field_eq_ok hread) with hsame | ⟨s, rfl⟩
    · exact ⟨rfl, rfl, Value.truthy_of_same hsame, rfl, Or.inl hsame⟩
    · obtain ⟨hlocalized, hlocales⟩ := htaken.localized hlisted s hv
      have htruthy : (Value.text s).truthy = true := by
        refine bne_iff_ne.mpr ?_
        rintro rfl
        cases hread
      refine ⟨rfl, rfl, ?_, rfl, Or.inr ⟨htruthy, ?_⟩⟩
      · rw [htruthy, hlocalized]
        rfl
      · rw [hlocales]
        rfl
  · rw [fieldSpecs_of_listed hreads htaken hlisted,
      fieldSpecs_of_listed (reads_toOptions g) (takenAsRead_toOptions g) hlisted]
    refine .ok (List.forall₂_same.mpr fun spec hspec => ?_)
    obtain ⟨name, _, rfl⟩ := List.mem_map.mp hspec
    exact ⟨rfl, rfl, rfl, rfl, Or.inl rfl⟩

/-- A text that settings read is taken as it is. -/
theorem requiredOption_of_readsAs {name s : String}
    (h : o.ReadsAs name (Check.field name Check.readText) s) :
    requiredOption o name = .ok (.text s) := by
  obtain ⟨v, hv, hread⟩ := h
  rw [requiredOption, hv, Check.text_of_readText (Check.field_eq_ok hread)]

theorem resolve_eq (hreads : Reads o g) : Mode.resolve (option o "mode") = .ok g.mode := by
  obtain ⟨v, hv, hread⟩ := hreads.mode
  rw [option_of_get? hv, Mode.resolve_of_readMode (Check.field_eq_ok hread)]

/-- A name that is no setting is not given at all. -/
theorem option_override_of_notMem (s : AutocompleteSettings) {given : Options} {name : String}
    (hnames : ∀ e ∈ given, e.1 ∈ AutocompleteSettings.fields.map (·.name))
    (hname : name ∉ AutocompleteSettings.fields.map (·.name)) :
    option (s.toOptions.override given) name = .null := by
  have hgiven : ∀ e ∈ given, e.1 ≠ name := fun e he heq => hname (heq ▸ hnames e he)
  rw [option, Options.getD, Options.get?_override_of_notMem hgiven,
    get?_toOptions_of_notMem _ hname, Option.getD_none]

theorem indexPrefix_eq (hreads : Reads o g) :
    option o "index_prefix" = option g.toOptions "index_prefix" := by
  obtain ⟨v, hv, hread⟩ := hreads.indexPrefix
  rw [option_of_get? hv, option_of_get? (v := (g.indexPrefix.map Value.text).getD .null) rfl]
  rcases Check.optional_eq_ok hread with ⟨rfl, hnone⟩ | ⟨p, hsome, hp⟩
  · rw [hnone]
    rfl
  · rw [hsome, Check.text_of_readText (Check.field_eq_ok hp)]
    rfl

theorem request_eq (hreads : Reads o g) (htaken : TakenAsRead o g) {i k : Index}
    (hi : i.options = o) (hk : k.options = g.toOptions) (text : Value) (options : Options) :
    i.request text options = k.request text options := by
  obtain ⟨v, hv, hread⟩ := hreads.perPage
  have hsize := Request.positiveInt_of_readInt (Check.field_eq_ok hread) fun s hs =>
    htaken.perPage s (hs ▸ hv)
  have hleft : requiredOption i.options "per_page" = .ok v := by rw [requiredOption, hi, hv]
  have hright : requiredOption k.options "per_page" = .ok (.int g.perPage) := by rw [hk]; rfl
  rw [request, request, hleft, hright]
  change Request.ofOptions _ = Request.ofOptions _
  refine Request.ofOptions_congr (fun name hname d => ?_) ?_
  · split
    · rfl
    · simp only [Options.getD_set, if_neg (Ne.symm hname)]
  · split
    · rfl
    · have htext : ¬ "text" = "per_page" := by decide
      simp only [Options.getD_set, if_neg htext, if_true]
      exact hsize

theorem buildQuery_eq (hreads : Reads o g) (htaken : TakenAsRead o g) {i k : Index}
    (hi : i.options = o) (hk : k.options = g.toOptions) (hfields : i.searchFields = k.searchFields)
    (htypes : i.fieldTypes = k.fieldTypes) (text : Value) (options : Options) :
    i.buildQuery text options = k.buildQuery text options := by
  have hgeo : requiredOption i.options "geo_field" = requiredOption k.options "geo_field" := by
    rw [hi, hk, requiredOption_of_readsAs hreads.geoField]
    rfl
  rw [buildQuery, buildQuery, request_eq hreads htaken hi hk, hgeo, hfields, htypes]

/-- Two indexes are the same in all that is derived from their options, and they compile the same
queries. -/
structure Alike (i k : Index) : Prop where
  specs : List.Forall₂ FieldSpec.Same i.specs k.specs
  subFields : i.subFields = k.subFields
  searchAttrs : i.searchAttrs = k.searchAttrs
  searchFields : i.searchFields = k.searchFields
  name : i.name = k.name
  body : i.body = k.body
  queries : ∀ text options, i.buildQuery text options = k.buildQuery text options

/-- An option of an index means the same as the setting of its name, apart from texts that an
index does not take for what settings read them as: with options put on top of the settings, and
with settings that were read from these options on top of theirs, either no index is made, for the
same reason, or the two indexes are alike. -/
theorem create_alike {env : Environment} {model : Model} {attr : Value} {settings : Settings}
    {given : Options} {g : AutocompleteSettings}
    (hnames : ∀ e ∈ given, e.1 ∈ AutocompleteSettings.fields.map (·.name))
    (hload : AutocompleteSettings.load env (settings.autocomplete.toOptions.override given) = .ok g)
    (htaken : TakenAsRead (settings.autocomplete.toOptions.override given) g) :
    Outcome.Agree Alike (create env model attr (some settings) given)
      (create env model attr (some { settings with autocomplete := g }) []) := by
  have hreads := reads_of_load hload fun name hname =>
    Options.isSome_get?_override given (isSome_toOptions settings.autocomplete hname)
  have hother {name : String} (hname : name ∉ AutocompleteSettings.fields.map (·.name)) :
      option (settings.autocomplete.toOptions.override given) name = option g.toOptions name :=
    (option_override_of_notMem _ hnames hname).trans
      (option_override_of_notMem g (fun _ h => absurd h List.not_mem_nil) hname).symm
  generalize hoptions : settings.autocomplete.toOptions.override given = o at *
  have hname : indexName model o = indexName model g.toOptions := by
    rw [indexName, indexName, indexPrefix_eq hreads, hother (by decide)]
  have hbody (subFields : List SubField) :
      indexBody o subFields = indexBody g.toOptions subFields := by
    rw [indexBody, indexBody, hother (by decide)]
  have hmode : Mode.resolve (option o "mode") = Mode.resolve (option g.toOptions "mode") :=
    (resolve_eq hreads).trans (resolve_eq (reads_toOptions g)).symm
  have hattr : requiredOption o "attr" = requiredOption g.toOptions "attr" :=
    requiredOption_of_readsAs hreads.attr
  refine Outcome.agree_bind (R := fun s t => s = settings ∧ t = { settings with autocomplete := g })
    (.ok ⟨rfl, rfl⟩) ?_
  rintro _ _ - - ⟨rfl, rfl⟩
  rw [hoptions, show Options.override g.toOptions [] = g.toOptions from rfl]
  dsimp only
  -- the attribute is the given one or an option, and what follows is the same for both
  split
  all_goals
    refine Outcome.agree_bind (Outcome.agree_of_eq (by first | rfl | exact hattr)) ?_
    rintro attr _ - - rfl
    refine Outcome.agree_bind (Outcome.agree_of_eq hmode) ?_
    rintro mode _ - - rfl
    refine Outcome.agree_bind (fieldSpecs_fit hreads htaken attr mode) ?_
    intro specs others _ _ hfit
    refine Outcome.agree_bind (Outcome.agree_of_eq (allSubFields_eq hfit)) ?_
    rintro subFields _ hsubFields - rfl
    refine Outcome.agree_bind (Outcome.agree_of_eq rfl) ?_
    rintro searchFields _ - - rfl
    refine Outcome.agree_bind (Outcome.agree_of_eq hname) ?_
    rintro name _ - - rfl
    refine Outcome.agree_bind (Outcome.agree_of_eq (hbody subFields)) ?_
    rintro body _ - - rfl
    refine Outcome.agree_bind (Outcome.agree_of_eq rfl) ?_
    rintro fieldTypes _ - - rfl
    exact .ok {
      specs := same_of_allSubFields hfit hsubFields
      subFields := rfl
      searchAttrs := rfl
      searchFields := rfl
      name := rfl
      body := rfl
      queries := buildQuery_eq hreads htaken rfl rfl rfl rfl }

/-- Options of all kinds for an index of cities. -/
def cityOptions : Options :=
  [("localized", .int 1), ("mode", .text "full"), ("locales", .list [.text "en", .text "de"]),
    ("search_attrs", .text ""), ("index_prefix", .text "app"), ("commit_callbacks", .text "no"),
    ("per_page", .text " 20 "), ("geo_field", .text "place")]

/-- What settings read these options as. -/
def citySettings : AutocompleteSettings where
  attr := "name"
  localized := true
  mode := .full
  locales := ["en", "de"]
  searchAttrs := some []
  indexPrefix := some "app"
  commitCallbacks := false
  perPage := 20
  geoField := "place"

theorem load_cityOptions :
    AutocompleteSettings.load ⟨[], none⟩
      (AutocompleteSettings.standard.toOptions.override cityOptions) = .ok citySettings := rfl

theorem takenAsRead_cityOptions :
    TakenAsRead (AutocompleteSettings.standard.toOptions.override cityOptions) citySettings where
  searchAttrs s hs := by
    cases Option.some.inj hs
    rfl
  locales _ s hs := by cases Option.some.inj hs
  localized _ s hs := by cases Option.some.inj hs
  perPage s hs hpoint := by
    cases Option.some.inj hs
    exact absurd hpoint (by decide)

/-- The index of cities with these options. -/
def optedIndex : Except Failure Index :=
  create ⟨[], none⟩ ⟨"City", none⟩ .null (some ⟨.standard, .standard⟩) cityOptions

/-- The index of cities with the settings that were read from them. -/
def setIndex : Except Failure Index :=
  create ⟨[], none⟩ ⟨"City", none⟩ .null (some ⟨citySettings, .standard⟩) []

theorem create_alike_cityOptions :
    (∀ e ∈ cityOptions, e.1 ∈ AutocompleteSettings.fields.map (·.name)) ∧
      AutocompleteSettings.load ⟨[], none⟩
        (AutocompleteSettings.standard.toOptions.override cityOptions) = .ok citySettings ∧
      TakenAsRead (AutocompleteSettings.standard.toOptions.override cityOptions) citySettings ∧
      ∃ i k, optedIndex = .ok i ∧ setIndex = .ok k ∧
        i.searchAttrs = [.text "name_en", .text "name_de"] ∧ i.Alike k := by
  have hnames : ∀ e ∈ cityOptions, e.1 ∈ AutocompleteSettings.fields.map (·.name) := by
    decide
  have halike : Outcome.Agree Alike optedIndex setIndex :=
    create_alike hnames load_cityOptions takenAsRead_cityOptions
  have hattrs : optedIndex.map searchAttrs = .ok [.text "name_en", .text "name_de"] := rfl
  refine ⟨hnames, load_cityOptions, takenAsRead_cityOptions, ?_⟩
  cases hopted : optedIndex with
  | error e =>
      rw [hopted] at hattrs
      cases hattrs
  | ok i =>
      rw [hopted] at halike hattrs
      cases hset : setIndex with
      | error e =>
          rw [hset] at halike
          cases halike
      | ok k =>
          rw [hset] at halike
          cases halike with
          | ok h => exact ⟨i, k, rfl, rfl, Except.ok.inj hattrs, h⟩

/-- What indexes have different values of tells that they are not alike. -/
theorem not_agree_of_map {α : Type} {x y : Except Failure Index} {f : Index → α}
    (hf : ∀ i k, i.Alike k → f i = f k) (hne : (x.map f).toOption ≠ (y.map f).toOption) :
    ¬ Outcome.Agree Alike x y := by
  rintro (e | hik)
  · exact hne rfl
  · exact hne (congrArg some (hf _ _ hik))

/-- The index of cities with several options differs from the one with the settings that are read
from them. -/
def Differs (given : Options) : Prop :=
  ∃ g, AutocompleteSettings.load ⟨[], none⟩
        (AutocompleteSettings.standard.toOptions.override given) = .ok g ∧
    ¬ Outcome.Agree Alike
      (create ⟨[], none⟩ ⟨"City", none⟩ .null (some ⟨.standard, .standard⟩) given)
      (create ⟨[], none⟩ ⟨"City", none⟩ .null (some ⟨g, .standard⟩) [])

theorem differs_texts :
    Differs [("search_attrs", .text "name,title")] ∧ Differs [("locales", .text "en,de")] ∧
      Differs [("localized", .text "false")] ∧ Differs [("per_page", .text "20.0")] := by
  have hattrs (i k : Index) (h : i.Alike k) :
      i.searchAttrs.map Value.text? = k.searchAttrs.map Value.text? := by rw [h.searchAttrs]
  have hlocales {specs others : List FieldSpec} (h : List.Forall₂ FieldSpec.Same specs others) :
      specs.map (fun spec => spec.locales.length) =
        others.map fun spec => spec.locales.length := by
    induction h with
    | nil => rfl
    | cons hsame _ ih => rw [List.map_cons, List.map_cons, hsame.locales, ih]
  have hsize (i k : Index) (h : i.Alike k) : (i.buildQuery .null []).toOption.map (·.size) =
      (k.buildQuery .null []).toOption.map (·.size) := by rw [h.queries]
  refine ⟨?_, ?_, ?_, ?_⟩
  · exact ⟨{ AutocompleteSettings.standard with searchAttrs := some ["name", "title"] }, rfl,
      not_agree_of_map hattrs (by decide +kernel)⟩
  · exact ⟨{ AutocompleteSettings.standard with locales := ["en", "de"] }, rfl,
      not_agree_of_map (fun i k h => hlocales h.specs) (by decide +kernel)⟩
  · exact ⟨AutocompleteSettings.standard, rfl, not_agree_of_map hattrs (by decide +kernel)⟩
  · exact ⟨{ AutocompleteSettings.standard with perPage := 20 }, rfl,
      not_agree_of_map hsize (by decide +kernel)⟩

end Index

end Typeahead
