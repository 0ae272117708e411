import Typeahead.Proofs.Mapping.Layout
import Typeahead.Proofs.Options

/-!
# Names of indexes

The name of an index has a source, `Index.SourceName`, and with a prefix it should stay within the
namespace of the prefix: `Text.Within` asks for the prefix and the underscore behind it.  A source
that only begins with the letters of the prefix is left as it is, and then its name is outside.
A name that was worked out is its own name from then on.
-/

namespace Typeahead

namespace Text

/-- Whether a name is one of a namespace: the prefix and an underscore stand in front. -/
def Within (start name : String) : Prop := (start ++ "_").toList <+: name.toList

instance (start name : String) : Decidable (Within start name) :=
  inferInstanceAs (Decidable (_ <+: _))

variable {start name : String}

theorem prefix_of_within (h : Within start name) : start.toList <+: name.toList := by
  rw [Within, String.toList_append] at h
  exact (List.prefix_append _ _).trans h

theorem within_append (start name : String) : Within start (start ++ "_" ++ name) := by
  have happend : (start ++ "_" ++ name).toList = (start ++ "_").toList ++ name.toList :=
    String.toList_append
  rw [Within, happend]
  exact List.prefix_append _ _

theorem append_ne_self (start name : String) : start ++ "_" ++ name ≠ name := by
  intro heq
  have hlength := congrArg String.length heq
  simp only [String.length_append] at hlength
  have hunderscore : "_".length = 1 := rfl
  omega

end Text

namespace Index

/-- Where the name of an index comes from: the option, or else the table, or else the class. -/
inductive SourceName (model : Model) (options : Options) : String → Prop
  | given {name : String} (h : option options "index_name" = .text name) (hne : name ≠ "") :
      SourceName model options name
  | table {t : Table} (h : (option options "index_name").truthy = false)
      (ht : model.table = some t) (hne : t.name ≠ "") : SourceName model options t.name
  | className (h : (option options "index_name").truthy = false)
      (ht : ∀ t, model.table = some t → t.name = "") :
      SourceName model options (Text.lower model.name)

/-- A name behind its prefix, unless it begins with the letters of it. -/
def behind (start name : String) : String :=
  if start.toList <+: name.toList then name else start ++ "_" ++ name

variable {model : Model} {options : Options} {start : String}

theorem truthy_text_iff (s : String) : (Value.text s).truthy = true ↔ s ≠ "" := by
  simp [Value.truthy]

theorem withStart_text (hstart : start ≠ "") (name : String) :
    withStart (.text start) (.text name) = .ok (.text (behind start name)) := by
  have hplain (s : String) : (Value.text s).plain? = .ok s := rfl
  rw [withStart, if_pos ((truthy_text_iff start).mpr hstart), startsWith, behind]
  simp only [← List.isPrefixOf_iff_prefix]
  cases start.toList.isPrefixOf name.toList with
  | true => rfl
  | false => rfl

/-- Only a text can be put behind a prefix. -/
theorem text_of_withStart {v w : Value} (h : withStart (.text start) w = .ok v)
    (hstart : start ≠ "") : ∃ name, w = .text name := by
  rw [withStart, if_pos ((truthy_text_iff start).mpr hstart)] at h
  obtain ⟨_, hstarts, _⟩ := (Outcome.bind_eq_ok_iff _ _ _).mp h
  cases w with
  | text name => exact ⟨name, rfl⟩
  | _ => cases hstarts

/-- The name of a model is the source of the index name when the option is not given. -/
theorem exists_modelName (model : Model) (h : (option options "index_name").truthy = false) :
    ∃ source, SourceName model options source ∧ modelName model = .text source := by
  rw [modelName]
  cases htable : model.table with
  | none =>
      refine ⟨_, .className h fun t ht => ?_, rfl⟩
      cases htable.symm.trans ht
  | some t =>
      rw [Option.map_some, Option.getD_some, Value.orElse]
      split
      · next hname => exact ⟨_, .table h htable ((truthy_text_iff t.name).mp hname), rfl⟩
      · next hname =>
        refine ⟨_, .className h fun t' ht' => ?_, rfl⟩
        obtain rfl := Option.some.inj (htable.symm.trans ht')
        exact not_not.mp fun hne => hname ((truthy_text_iff t.name).mpr hne)

/-- The name of an index is its source behind the prefix. -/
theorem exists_source {v : Value} (h : indexName model options = .ok v)
    (hbegins : option options "index_prefix" = .text start) (hstart : start ≠ "") :
    ∃ source, SourceName model options source ∧ v = .text (behind start source) := by
  rw [indexName, hbegins, Value.orElse] at h
  split at h
  · next hgiven =>
    obtain ⟨name, hname⟩ := text_of_withStart h hstart
    rw [hname] at h hgiven
    rw [withStart_text hstart] at h
    exact ⟨name, .given hname ((truthy_text_iff name).mp hgiven), (Except.ok.inj h).symm⟩
  · next hmissing =>
    obtain ⟨source, hsource, hname⟩ :=
      exists_modelName model ((Bool.not_eq_true _).mp hmissing)
    rw [hname, withStart_text hstart] at h
    exact ⟨source, hsource, (Except.ok.inj h).symm⟩

/-- A name behind its prefix begins with the letters of the prefix. -/
theorem prefix_behind (start name : String) : start.toList <+: (behind start name).toList := by
  rw [behind]
  split
  · next hbegins => exact hbegins
  · exact Text.prefix_of_within (Text.within_append start name)

/-- Putting a name behind its prefix once more changes nothing. -/
theorem behind_behind (start name : String) :
    behind start (behind start name) = behind start name := by
  rw [behind, if_pos (prefix_behind start name)]

/-- A name is where the namespace wants it unless it begins with the letters of the prefix and not
with the underscore behind them. -/
theorem within_behind_iff (start name : String) :
    (Text.Within start (behind start name) ∧ (behind start name = name ↔ Text.Within start name) ∧
        (¬ Text.Within start name → behind start name = start ++ "_" ++ name)) ↔
      (start.toList <+: name.toList → Text.Within start name) := by
  rw [behind]
  split
  · next hbegins =>
    by_cases hwithin : Text.Within start name
    · simp [hbegins, hwithin]
    · simp [hbegins, hwithin]
  · next hbegins =>
    have hout : ¬ Text.Within start name := fun hwithin => hbegins (Text.prefix_of_within hwithin)
    have hne := Text.append_ne_self start name
    simp only [Text.within_append, hne, hout, hbegins, not_false_eq_true, true_and, forall_const,
      false_imp_iff]

section Again

/-! Options that differ in the name of the index only make the same specifications and the same
body. -/

variable {o p : Options}

theorem requiredOption_congr {name : String} (h : p.get? name = o.get? name) :
    requiredOption p name = requiredOption o name := by
  rw [requiredOption, requiredOption, h]

theorem option_congr {name : String} (h : p.get? name = o.get? name) :
    option p name = option o name := by
  rw [option, option, Options.getD, Options.getD, h]

theorem fieldSpecs_congr (h : ∀ name, name ≠ "index_name" → p.get? name = o.get? name)
    (attr : Value) (mode : Mode) : fieldSpecs p attr mode = fieldSpecs o attr mode := by
  rw [fieldSpecs, fieldSpecs, option_congr (h "search_attrs" (by decide)),
    requiredOption_congr (h "localized" (by decide)), option_congr (h "locales" (by decide))]

theorem indexBody_congr (h : ∀ name, name ≠ "index_name" → p.get? name = o.get? name)
    (subFields : List SubField) : indexBody p subFields = indexBody o subFields := by
  rw [indexBody, indexBody, option_congr (h "skip_settings" (by decide))]

variable {env : Environment} {attr : Value} {given : Option Settings} {index : Index}

/-- A model that is configured again under the name that it has got is configured the same. -/
theorem create_again (h : CreatedFrom env model attr given options index)
    (hnames : (options.map (·.1)).Nodup) {start name : String}
    (hbegins : option index.options "index_prefix" = .text start) (hstart : start ≠ "")
    (hname : index.name = .text (behind start name)) :
    ∃ again, create env model attr given (options.set "index_name" index.name) = .ok again ∧
      again.name = index.name := by
  obtain ⟨renamed, hrenamed⟩ : ∃ renamed, renamed = Options.override
    index.settings.autocomplete.toOptions (options.set "index_name" index.name) := ⟨_, rfl⟩
  have hget (m : String) : renamed.get? m =
      if "index_name" = m then some index.name else index.options.get? m := by
    rw [hrenamed, Options.get?_override_set hnames, ← h.options_eq]
  have hsame : ∀ m, m ≠ "index_name" → renamed.get? m = index.options.get? m := by
    intro m hm
    rw [hget, if_neg hm.symm]
  have hgiven : option renamed "index_name" = index.name := by
    rw [option, Options.getD, hget, if_pos rfl]
    rfl
  have hne : behind start name ≠ "" := by
    intro hempty
    have hletters := prefix_behind start name
    rw [hempty] at hletters
    exact hstart (String.toList_eq_nil_iff.mp (List.prefix_nil.mp hletters))
  have hagain : indexName model renamed = .ok index.name := by
    rw [indexName, hgiven, option_congr (hsame "index_prefix" (by decide)), hbegins, hname,
      Value.orElse, if_pos ((truthy_text_iff _).mpr hne), withStart_text hstart, behind_behind]
  refine ⟨{ index with options := renamed }, create_eq_ok_iff.mpr ?_, rfl⟩
  exact {
    specs := (fieldSpecs_congr hsame _ _).trans h.specs
    subFields := h.subFields
    searchFields := h.searchFields
    body := (indexBody_congr hsame _).trans h.body
    model_eq := h.model_eq
    own := h.own
    settings := h.settings
    options_eq := hrenamed
    attr_eq := by
      rw [requiredOption_congr (hsame "attr" (by decide))]
      exact h.attr_eq
    mode := by
      rw [option_congr (hsame "mode" (by decide))]
      exact h.mode
    name := hagain
    fieldTypes := h.fieldTypes }

/-- The name of an index under a prefix.  It is the option, or else the name of the table or of the
class, with the prefix and an underscore in front unless it begins with the letters of the prefix.
It stays in the namespace of the prefix, and is changed only for that, exactly when a source that
begins with these letters also has the underscore behind them.  Under the name that it has got, the
model gets the same name again. -/
theorem name_of_create (h : create env model attr given options = .ok index)
    (hnames : (options.map (·.1)).Nodup) {start : String}
    (hbegins : option index.options "index_prefix" = .text start) (hstart : start ≠ "") :
    ∃ source name, SourceName model index.options source ∧ index.name = .text name ∧
      name = (if start.toList <+: source.toList then source else start ++ "_" ++ source) ∧
      ((Text.Within start name ∧ (name = source ↔ Text.Within start source) ∧
          (¬ Text.Within start source → name = start ++ "_" ++ source)) ↔
        (start.toList <+: source.toList → Text.Within start source)) ∧
      ∃ again, create env model attr given (options.set "index_name" index.name) = .ok again ∧
        again.name = index.name := by
  have hcreated := create_eq_ok_iff.mp h
  obtain ⟨source, hsource, hname⟩ := exists_source hcreated.name hbegins hstart
  exact ⟨source, behind start source, hsource, hname, rfl, within_behind_iff start source,
    create_again hcreated hnames hbegins hstart hname⟩

end Again

/-- The standard settings with a prefix for the names of indexes. -/
def prefixedSettings : Settings :=
  ⟨{ AutocompleteSettings.standard with indexPrefix := some "test" }, .standard⟩

/-- A table of things that have names. -/
def namedTable (name : String) : Table := ⟨name,
  [⟨"id", "id", .generic .integer, true, false⟩, ⟨"name", "name", .generic .string, false, true⟩]⟩

/-- Testimonials, in the table of that name. -/
def testimonialModel : Model := ⟨"Testimonial", some (namedTable "testimonials")⟩

/-- Cities, in an index of a name of their own. -/
def placesIndex (name : Value) : Except Failure Index :=
  create ⟨[], none⟩ ⟨"City", some (namedTable "cities")⟩ .null (some prefixedSettings)
    [("index_name", name)]

/-- Places come to stand behind the prefix and stay there. -/
theorem name_of_create_places : ∃ index, placesIndex (.text "places") = .ok index ∧
    index.name = .text "test_places" ∧ Text.Within "test" "test_places" ∧
    ∃ again, placesIndex (.text "test_places") = .ok again ∧ again.name = .text "test_places" := by
  have hbegins : (placesIndex (.text "places")).map (fun index =>
      option index.options "index_prefix") = .ok (.text "test") := rfl
  have hname : (placesIndex (.text "places")).map name = .ok (.text "test_places") := rfl
  cases h : placesIndex (.text "places") with
  | error e =>
      rw [h] at hname
      cases hname
  | ok index =>
      rw [h] at hbegins hname
      obtain ⟨_, _, _, _, _, _, again, hagain, heq⟩ :=
        name_of_create h (List.nodup_singleton _) (Except.ok.inj hbegins) (by decide)
      rw [Except.ok.inj hname] at hagain heq
      exact ⟨index, rfl, Except.ok.inj hname, by decide, again, hagain, heq⟩

/-- Testimonials, in an index that is named after their table. -/
def testimonialsIndex : Except Failure Index :=
  create ⟨[], none⟩ testimonialModel .null (some prefixedSettings) []

/-- A table whose name begins with the letters of the prefix is outside its namespace. -/
theorem exists_outside_namespace : ∃ index, testimonialsIndex = .ok index ∧
    option index.options "index_prefix" = .text "test" ∧
    SourceName testimonialModel index.options "testimonials" ∧
    index.name = .text "testimonials" ∧ ¬ Text.Within "test" "testimonials" := by
  have hbegins : testimonialsIndex.map (fun index => option index.options "index_prefix") =
      .ok (.text "test") := rfl
  have hgiven : testimonialsIndex.map (fun index =>
      (option index.options "index_name").truthy) = .ok false := rfl
  have hname : testimonialsIndex.map name = .ok (.text "testimonials") := rfl
  cases h : testimonialsIndex with
  | error e =>
      rw [h] at hname
      cases hname
  | ok index =>
      rw [h] at hbegins hgiven hname
      have hsource : SourceName testimonialModel index.options (namedTable "testimonials").name :=
        .table (Except.ok.inj hgiven) rfl (by decide)
      exact ⟨index, rfl, Except.ok.inj hbegins, hsource, Except.ok.inj hname, by decide⟩

end Index

end Typeahead
