import Typeahead.Proofs.Settings.Gathering

/-!
# A group alone and among all settings

All settings hand the mapping that they gather about a group to the group, as values given by
name, and the group reads its variables once more.  So the group is loaded the way it is alone,
apart from nulls: a null that is told first is given by name then, `Environment.nulls`, while a
group alone takes it for not set.
-/

namespace Typeahead

namespace Settings

/-- A null on its own. -/
def onlyNull : Option Value → Option Value
  | some .null => some .null
  | _ => none

end Settings

open Settings

namespace Environment

/-- What the variables tell first about a field. -/
def toldFirst (env : Environment) (group : String) (f : SettingsField) : Option Value :=
  (env.told group .environment f).or (env.told group .dotEnv f)

/-- The nulls that are told first about fields, as values given by name. -/
def nulls (env : Environment) (group : String) (fields : List SettingsField) : Options :=
  fields.filterMap fun f => (onlyNull (env.toldFirst group f)).map fun v => (f.name, v)

theorem nulls_eq_nil {env : Environment} {group : String} {fields : List SettingsField}
    (h : ∀ f ∈ fields, env.toldFirst group f ≠ some .null) : env.nulls group fields = [] := by
  refine List.filterMap_eq_nil_iff.mpr fun f hf => ?_
  cases hfirst : env.toldFirst group f with
  | none => rfl
  | some v =>
      cases v with
      | null => exact absurd hfirst (h f hf)
      | _ => rfl

end Environment

namespace Settings

variable {env : Environment} {group : String} {fields : List SettingsField} {α : Type}

theorem none_overlay (top : Option Value) : overlay none top = top := by
  cases top with
  | none => rfl
  | some v => rfl

theorem get?_namedValues (entries : Entries) (n : String) :
    Options.get? (namedValues entries) n = entries.lookup (.text n) := by
  induction entries with
  | nil => rfl
  | cons e entries ih =>
      rw [namedValues] at ih ⊢
      rw [List.filterMap_cons, Entries.lookup_cons_text]
      obtain ⟨k, v⟩ := e
      cases k with
      | text s =>
          dsimp only
          rw [Options.get?_cons, ih]
          simp only [Value.text.injEq]
      | _ => simp [ih]

theorem groupOutcome_eq_ok_iff (x : Except Failure α) (a : α) :
    groupOutcome group x = .ok (.ok a) ↔ x = .ok a := by
  unfold groupOutcome
  split
  · simp
  · simp
  · split
    · simp
    · simp

/-- A group is built from what both origins give by name. -/
theorem groupValue_overlay (group model : String)
    {value upper : SettingsField → Option Value} {base top : Option Value}
    (hbase : Found fields value base) (htop : Found fields upper top)
    (load : Options → Except Failure α) :
    ∃ given : Options, (∀ f ∈ fields, given.get? f.name = overlay (value f) (upper f)) ∧
      ∀ a, groupValue group model load none (overlay base top) = .ok (.ok a) ↔
        load given = .ok a := by
  have hdict (entries : Entries) (a : α) :
      groupValue group model load none (some (.dict entries)) = .ok (.ok a) ↔
        load (namedValues entries) = .ok a := by
    rw [groupValue, groupOutcome_eq_ok_iff]
  rcases hbase with ⟨rfl, hvalue⟩ | ⟨under, rfl, hunder⟩
  · rcases htop with ⟨rfl, hupper⟩ | ⟨entries, rfl, hentries⟩
    · refine ⟨[], fun f hf => ?_, fun a => ?_⟩
      · rw [hvalue f hf, hupper f hf]
        rfl
      · rw [overlay_none, groupValue, Outcome.bind_eq_ok_iff]
        simp only [Outcome.pure_eq_ok_iff, Except.ok.injEq, exists_eq_right]
    · refine ⟨namedValues entries, fun f hf => ?_, fun a => ?_⟩
      · rw [get?_namedValues, hentries.lookup f hf, hvalue f hf, none_overlay]
      · rw [none_overlay]
        exact hdict entries a
  · rcases htop with ⟨rfl, hupper⟩ | ⟨entries, rfl, hentries⟩
    · refine ⟨namedValues under, fun f hf => ?_, fun a => ?_⟩
      · rw [get?_namedValues, hunder.lookup f hf, hupper f hf, overlay_none]
      · rw [overlay_none]
        exact hdict under a
    · refine ⟨namedValues (merge under entries), fun f hf => ?_, fun a => ?_⟩
      · rw [get?_namedValues, lookup_merge hentries.named hentries.distinct,
          hunder.lookup f hf, hentries.lookup f hf]
      · rw [overlay]
        exact hdict _ a

/-- A group that is not given is built from the variables. -/
def Built (env : Environment) (group model : String) (fields : List SettingsField)
    (load : Options → Except Failure α) (a : α) : Prop :=
  ∃ outer file, groupFrom .environment (env.read .environment) group fields = .ok outer ∧
    groupFrom .dotEnv (env.read .dotEnv) group fields = .ok file ∧
      groupValue group model load none (overlay file outer) = .ok (.ok a)

/-- What is told first counts when it is given by name, a null as well. -/
theorem alike_firstSet (hw : WellNamed fields) {given : Options} {f : SettingsField}
    (hf : f ∈ fields) (hgiven : given.get? f.name =
      overlay (env.told group .dotEnv f) (env.told group .environment f)) :
    Alike ((env.firstSet group fields given).get? f.name)
      ((env.firstSet group fields (env.nulls group fields)).get? f.name) := by
  rw [Environment.firstSet, Environment.firstSet, get?_fields hw.distinct _ hf,
    get?_fields hw.distinct _ hf, Environment.nulls, get?_fields hw.distinct _ hf, hgiven,
    Environment.toldFirst]
  refine ((overlay_alike _ _).or_left _).trans (Or.inl ?_)
  -- what is not null counts on both sides, as given or as told; a null only as given
  cases env.told group .environment f with
  | some v => cases v <;> rfl
  | none =>
      cases env.told group .dotEnv f with
      | some v => cases v <;> rfl
      | none => rfl

/-- A group that is built from the variables is the one that is loaded alone with the nulls given
by name. -/
theorem built_iff_load (model : String) {check : Options → Check.Outcome α}
    {load : Options → Except Failure α}
    (hcheck : ∀ o o' : Options, (∀ f ∈ fields, Alike (o.get? f.name) (o'.get? f.name)) →
      check o = check o')
    (hload : ∀ given a, load given = .ok a ↔
      env.Readable group fields ∧ check (env.firstSet group fields given) = .ok a)
    (hw : WellNamed fields) (hn : env.NamesFields group fields) (a : α) :
    Built env group model fields load a ↔ load (env.nulls group fields) = .ok a := by
  have hsame {outer file : Option Value}
      (houter : groupFrom .environment (env.read .environment) group fields = .ok outer)
      (hfile : groupFrom .dotEnv (env.read .dotEnv) group fields = .ok file) :
      groupValue group model load none (overlay file outer) = .ok (.ok a) ↔
        load (env.nulls group fields) = .ok a := by
    obtain ⟨given, hgiven, hvalue⟩ := groupValue_overlay group model
      (found_of_groupFrom hw hn hfile) (found_of_groupFrom hw hn houter) load
    rw [hvalue, hload, hload, hcheck _ _ fun f hf => alike_firstSet hw hf (hgiven f hf)]
  constructor
  · rintro ⟨outer, file, houter, hfile, hvalue⟩
    exact (hsame houter hfile).mp hvalue
  · intro h
    have hreadable := ((hload _ a).mp h).1
    obtain ⟨outer, houter⟩ := groupFrom_of_readable hw hn (hreadable .environment)
    obtain ⟨file, hfile⟩ := groupFrom_of_readable hw hn (hreadable .dotEnv)
    exact ⟨outer, file, houter, hfile, (hsame houter hfile).mpr h⟩

/-- All settings are the two groups, each built from the variables. -/
theorem load_eq_ok_iff (env : Environment) (a : AutocompleteSettings) (c : ConnectionSettings) :
    load env none none = .ok ⟨a, c⟩ ↔
      Built env AutocompleteSettings.group "AutocompleteSettings" AutocompleteSettings.fields
          (AutocompleteSettings.load env) a ∧
        Built env ConnectionSettings.group "OpenSearchSettings" ConnectionSettings.fields
          (ConnectionSettings.load env) c := by
  simp only [load, Built, Outcome.bind_eq_ok_iff]
  constructor
  · rintro ⟨a₁, ha₁, c₁, hc₁, a₂, ha₂, c₂, hc₂, oa, hoa, oc, hoc, h⟩
    split at h
    · obtain ⟨rfl, rfl⟩ := Settings.mk.inj ((Outcome.pure_eq_ok_iff _ _).mp h)
      exact ⟨⟨a₁, a₂, ha₁, ha₂, hoa⟩, c₁, c₂, hc₁, hc₂, hoc⟩
    · cases h
  · rintro ⟨⟨a₁, a₂, ha₁, ha₂, hoa⟩, c₁, c₂, hc₁, hc₂, hoc⟩
    exact ⟨a₁, ha₁, c₁, hc₁, a₂, ha₂, c₂, hc₂, _, hoa, _, hoc, rfl⟩

theorem load_given_eq_ok_iff (env : Environment) (a : AutocompleteSettings)
    (c : ConnectionSettings) : load env (some a) none = .ok ⟨a, c⟩ ↔
      ((∃ outer, groupFrom .environment (env.read .environment) AutocompleteSettings.group
          AutocompleteSettings.fields = .ok outer) ∧
        ∃ file, groupFrom .dotEnv (env.read .dotEnv) AutocompleteSettings.group
          AutocompleteSettings.fields = .ok file) ∧
        Built env ConnectionSettings.group "OpenSearchSettings" ConnectionSettings.fields
          (ConnectionSettings.load env) c := by
  simp only [load, Built, groupValue, Outcome.bind_eq_ok_iff]
  constructor
  · rintro ⟨a₁, ha₁, c₁, hc₁, a₂, ha₂, c₂, hc₂, oa, hoa, oc, hoc, h⟩
    obtain rfl := Except.ok.inj hoa
    split at h
    · obtain ⟨rfl, rfl⟩ := Settings.mk.inj ((Outcome.pure_eq_ok_iff _ _).mp h)
      exact ⟨⟨⟨a₁, ha₁⟩, a₂, ha₂⟩, c₁, c₂, hc₁, hc₂, hoc⟩
    · cases h
  · rintro ⟨⟨⟨a₁, ha₁⟩, a₂, ha₂⟩, c₁, c₂, hc₁, hc₂, hoc⟩
    exact ⟨a₁, ha₁, c₁, hc₁, a₂, ha₂, c₂, hc₂, _, rfl, _, hoc, rfl⟩

theorem built_autocomplete_iff {env : Environment}
    (hn : env.NamesFields AutocompleteSettings.group AutocompleteSettings.fields)
    (a : AutocompleteSettings) :
    Built env AutocompleteSettings.group "AutocompleteSettings" AutocompleteSettings.fields
        (AutocompleteSettings.load env) a ↔
      AutocompleteSettings.load env
        (env.nulls AutocompleteSettings.group AutocompleteSettings.fields) = .ok a :=
  built_iff_load _ (fun _ _ => AutocompleteSettings.check_congr)
    (AutocompleteSettings.load_eq_ok_iff hn) AutocompleteSettings.wellNamed hn a

/-- All settings load the two groups as they are loaded alone, with nulls that are told first given
by name. -/
theorem load_iff_alone {env : Environment}
    (hn : env.NamesFields AutocompleteSettings.group AutocompleteSettings.fields)
    (hc : env.NamesFields ConnectionSettings.group ConnectionSettings.fields)
    (a : AutocompleteSettings) (c : ConnectionSettings) : load env none none = .ok ⟨a, c⟩ ↔
      AutocompleteSettings.load env
          (env.nulls AutocompleteSettings.group AutocompleteSettings.fields) = .ok a ∧
        ConnectionSettings.load env
          (env.nulls ConnectionSettings.group ConnectionSettings.fields) = .ok c := by
  have hconnection := built_iff_load "OpenSearchSettings"
    (fun _ _ => ConnectionSettings.check_congr) (ConnectionSettings.load_eq_ok_iff hc)
    ConnectionSettings.wellNamed hc c
  rw [load_eq_ok_iff, built_autocomplete_iff hn, hconnection]

/-- In an environment whose variables name fields of the autocomplete group, all settings load the
group that is loaded alone, as long as no field is told null first.  In general they load the group
that is loaded alone with these nulls given by name.  What the connection is loaded from makes no
difference to that; where its variables name fields as well, it is loaded alike.  Alone, the group
is loaded when all lists can be read and the values that are set first pass its check, and then it
holds these values. -/
theorem load_as_alone {env : Environment}
    (hn : env.NamesFields AutocompleteSettings.group AutocompleteSettings.fields) :
    ((∀ f ∈ AutocompleteSettings.fields,
        env.toldFirst AutocompleteSettings.group f ≠ some .null) →
      ∀ a c, load env none none = .ok ⟨a, c⟩ ↔
        AutocompleteSettings.load env [] = .ok a ∧ load env (some a) none = .ok ⟨a, c⟩) ∧
    (∀ a c, load env none none = .ok ⟨a, c⟩ ↔
      AutocompleteSettings.load env
          (env.nulls AutocompleteSettings.group AutocompleteSettings.fields) = .ok a ∧
        load env (some a) none = .ok ⟨a, c⟩) ∧
    (env.NamesFields ConnectionSettings.group ConnectionSettings.fields →
      ∀ a c, load env none none = .ok ⟨a, c⟩ ↔
        AutocompleteSettings.load env
            (env.nulls AutocompleteSettings.group AutocompleteSettings.fields) = .ok a ∧
          ConnectionSettings.load env
            (env.nulls ConnectionSettings.group ConnectionSettings.fields) = .ok c) ∧
    ∀ given a, AutocompleteSettings.load env given = .ok a ↔
      env.Readable AutocompleteSettings.group AutocompleteSettings.fields ∧
        AutocompleteSettings.check
          (env.firstSet AutocompleteSettings.group AutocompleteSettings.fields given) = .ok a := by
  have halone (a : AutocompleteSettings) (c : ConnectionSettings) :
      load env none none = .ok ⟨a, c⟩ ↔
        AutocompleteSettings.load env
            (env.nulls AutocompleteSettings.group AutocompleteSettings.fields) = .ok a ∧
          load env (some a) none = .ok ⟨a, c⟩ := by
    rw [load_eq_ok_iff, load_given_eq_ok_iff, ← built_autocomplete_iff hn]
    constructor
    · rintro ⟨⟨outer, file, houter, hfile, hvalue⟩, hconnection⟩
      exact ⟨⟨outer, file, houter, hfile, hvalue⟩, ⟨⟨outer, houter⟩, file, hfile⟩, hconnection⟩
    · rintro ⟨hbuilt, _, hconnection⟩
      exact ⟨hbuilt, hconnection⟩
  refine ⟨fun hnull a c => ?_, halone, load_iff_alone hn, AutocompleteSettings.load_eq_ok_iff hn⟩
  rw [halone, Environment.nulls_eq_nil hnull]

/-- A mode in the environment and another one in the file, where there are also locales. -/
def disagreeing : Environment where
  exported := [("AUTOCOMPLETE__MODE", "full"), ("Autocomplete__per_page", "20")]
  dotEnv := some "AUTOCOMPLETE__MODE=phrase\nAUTOCOMPLETE__LOCALES=[\"en\", \"de\"]\n"

theorem load_as_alone_disagreeing :
    disagreeing.NamesFields AutocompleteSettings.group AutocompleteSettings.fields ∧
      load disagreeing none none = .ok
        ⟨{ AutocompleteSettings.standard with
            mode := .full, locales := ["en", "de"], perPage := 20 }, .standard⟩ := by
  have hn : disagreeing.NamesFields AutocompleteSettings.group AutocompleteSettings.fields := by
    decide +kernel
  have hc : disagreeing.NamesFields ConnectionSettings.group ConnectionSettings.fields := by
    decide +kernel
  refine ⟨hn, ((load_as_alone hn).2.2.1 hc _ _).mpr ⟨?_, ?_⟩⟩
  · exact Outcome.eq_ok_of_toOption (by decide +kernel)
  · exact Outcome.eq_ok_of_toOption (by decide +kernel)

/-- Locales that are null in the environment. -/
def nullLocales : Environment := ⟨[("AUTOCOMPLETE__LOCALES", "null")], none⟩

/-- Listed attributes that are null in the environment, but not in the file. -/
def nullAttrs : Environment where
  exported := [("AUTOCOMPLETE__SEARCH_ATTRS", "null")]
  dotEnv := some "AUTOCOMPLETE__SEARCH_ATTRS=name\n"

/-- A null that is told first makes a difference: the group loads alone but not among all settings,
or it loads with other values there. -/
theorem exists_null_first :
    (nullLocales.NamesFields AutocompleteSettings.group AutocompleteSettings.fields ∧
      AutocompleteSettings.load nullLocales [] = .ok .standard ∧
      ∀ s, load nullLocales none none ≠ .ok s) ∧
    nullAttrs.NamesFields AutocompleteSettings.group AutocompleteSettings.fields ∧
      AutocompleteSettings.load nullAttrs [] =
        .ok { AutocompleteSettings.standard with searchAttrs := some ["name"] } ∧
      load nullAttrs none none = .ok ⟨.standard, .standard⟩ := by
  have hlocales : nullLocales.NamesFields AutocompleteSettings.group
      AutocompleteSettings.fields := by
    decide +kernel
  have hattrs : nullAttrs.NamesFields AutocompleteSettings.group AutocompleteSettings.fields := by
    decide +kernel
  have hconnection : nullAttrs.NamesFields ConnectionSettings.group ConnectionSettings.fields := by
    decide +kernel
  have hnone : (load nullLocales none none).toOption = none := by decide +kernel
  -- the mappings of both origins are merged by a recursion that does not compute in the kernel,
  -- so the second environment goes through the groups
  refine ⟨⟨hlocales, ?_, fun s h => ?_⟩, hattrs, ?_, ?_⟩
  · exact Outcome.eq_ok_of_toOption (by decide +kernel)
  · rw [h] at hnone
    cases hnone
  · exact Outcome.eq_ok_of_toOption (by decide +kernel)
  · refine (load_iff_alone hattrs hconnection _ _).mpr ⟨?_, ?_⟩
    · exact Outcome.eq_ok_of_toOption (by decide +kernel)
    · exact Outcome.eq_ok_of_toOption (by decide +kernel)

end Settings

end Typeahead
