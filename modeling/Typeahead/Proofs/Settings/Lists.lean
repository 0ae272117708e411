import Typeahead.Proofs.Settings.Lines
import Typeahead.Proofs.Settings.Origins
import Typeahead.Proofs.Settings.Structured

/-!
# Lists of names from every source

The two list fields of the autocomplete group take a text with commas when it is given by name.  A
variable or a line of a file is read as structured text first, `Environment.Sets`: for listed
attributes the text is a list with commas after all when it is no structured text, for locales it
never is.
-/

namespace Typeahead

/-- A field that takes a list with commas. -/
inductive ListField where
  | locales
  | searchAttrs
  deriving DecidableEq, Repr

namespace ListField

/-- The field in its group. -/
def field : ListField → SettingsField
  | .locales => ⟨"locales", .list false⟩
  | .searchAttrs => ⟨"search_attrs", .list true⟩

/-- The variable of the field in an environment and in a file. -/
def exported : ListField → String
  | .locales => "AUTOCOMPLETE__LOCALES"
  | .searchAttrs => "AUTOCOMPLETE__SEARCH_ATTRS"

/-- Standard settings with other names in the field. -/
def put : ListField → List String → AutocompleteSettings
  | .locales, names => { AutocompleteSettings.standard with locales := names }
  | .searchAttrs, names => { AutocompleteSettings.standard with searchAttrs := some names }

theorem field_mem (k : ListField) : k.field ∈ AutocompleteSettings.fields := by
  cases k with
  | locales => decide
  | searchAttrs => decide

/-- The name of the variable in lower case. -/
theorem lower_exported (k : ListField) : Text.lower k.exported =
    Settings.variableName AutocompleteSettings.group k.field := by
  cases k with
  | locales => decide +kernel
  | searchAttrs => decide +kernel

end ListField

namespace Settings

theorem readNames_text (field s : String) : readNames field (.text s) = .ok (commaList s) := by
  simp only [readNames, splitCommas, Check.sequence, Value.items?, Check.items_texts]

theorem fieldOr_of_ne {α : Type} {n name : String} (h : n ≠ name) (v : Value) (default : α)
    (read : Value → Check.Outcome α) : fieldOr [(n, v)] name default read = .ok default := by
  rw [fieldOr, Options.get?_cons, if_neg h]
  rfl

end Settings

namespace Environment

open Settings

/-- Variables that have nothing to do with the autocomplete group. -/
def Unrelated (bs : List (String × String)) : Prop :=
  ∀ b ∈ bs, ¬ AutocompleteSettings.group.toList <+: (Text.lower b.1).toList

instance (bs : List (String × String)) : Decidable (Unrelated bs) :=
  inferInstanceAs (Decidable (∀ b ∈ bs,
    ¬ AutocompleteSettings.group.toList <+: (Text.lower b.1).toList))

/-- No variable has to do with the autocomplete group. -/
def Silent (env : Environment) : Prop :=
  ∀ origin, ∀ w ∈ env.written origin,
    ¬ AutocompleteSettings.group.toList <+: (Text.lower w.1).toList

/-- The variable of a list field, in any case, is all that has to do with the autocomplete group.
It stands in one origin and has one text there. -/
structure Sets (env : Environment) (origin : SettingsOrigin) (k : ListField) (s : String) :
    Prop where
  present : ∃ w ∈ env.written origin, Text.lower w.1 =
    variableName AutocompleteSettings.group k.field
  alone : ∀ o, ∀ w ∈ env.written o,
    AutocompleteSettings.group.toList <+: (Text.lower w.1).toList →
      o = origin ∧ Text.lower w.1 = variableName AutocompleteSettings.group k.field ∧
        w.2 = some s

variable {env : Environment} {k : ListField} {s : String} {origin : SettingsOrigin}

theorem prefix_of_eq_variableName {name : String} {f : SettingsField}
    (h : name = variableName AutocompleteSettings.group f) :
    AutocompleteSettings.group.toList <+: name.toList := by
  simp [h, variableName]

theorem prefix_of_prefix_delimiter {name : String}
    (h : (AutocompleteSettings.group ++ delimiter).toList <+: name.toList) :
    AutocompleteSettings.group.toList <+: name.toList := by
  refine List.IsPrefix.trans ?_ h
  simp

theorem Silent.lookup?_eq (h : env.Silent) (o : SettingsOrigin) (f : SettingsField) :
    (env.read o).lookup? (variableName AutocompleteSettings.group f) = none := by
  refine (Variables.lookup?_eq_none_iff _ _).mpr fun e he heq => ?_
  obtain ⟨w, hw, hname, _⟩ := mem_written_of_mem_read he
  exact h o w hw (prefix_of_eq_variableName (hname.trans heq))

theorem Silent.namesFields (h : env.Silent) :
    env.NamesFields AutocompleteSettings.group AutocompleteSettings.fields := by
  intro o e he
  obtain ⟨w, hw, hname, _⟩ := mem_written_of_mem_read he
  have hsilent := h o w hw
  rw [hname] at hsilent
  refine ⟨fun heq => hsilent ?_, fun hstart => ?_⟩
  · rw [heq]
  · exact absurd (prefix_of_prefix_delimiter hstart) hsilent

theorem Sets.lookup?_eq (h : env.Sets origin k s) (o : SettingsOrigin) {f : SettingsField}
    (hf : f ∈ AutocompleteSettings.fields) :
    (env.read o).lookup? (variableName AutocompleteSettings.group f) =
      if o = origin ∧ f = k.field then some (some s) else none := by
  split
  · next heq =>
    obtain ⟨rfl, rfl⟩ := heq
    obtain ⟨w, hw, hname⟩ := h.present
    refine Variables.lookup?_of_unique (hname ▸ mem_names_read hw) fun e he hename => ?_
    obtain ⟨d, hd, hdname, hdtext⟩ := mem_written_of_mem_read he
    rw [← hdtext]
    exact (h.alone o d hd (prefix_of_eq_variableName (hdname.trans hename))).2.2
  · next hne =>
    refine (Variables.lookup?_eq_none_iff _ _).mpr fun e he hename => hne ?_
    obtain ⟨w, hw, hname, _⟩ := mem_written_of_mem_read he
    have heq := hname.trans hename
    obtain ⟨horigin, hk, _⟩ := h.alone o w hw (prefix_of_eq_variableName heq)
    refine ⟨horigin, AutocompleteSettings.wellNamed.eq_of_name hf k.field_mem ?_⟩
    exact variableName_inj.mp (heq.symm.trans hk)

theorem Sets.namesFields (h : env.Sets origin k s) :
    env.NamesFields AutocompleteSettings.group AutocompleteSettings.fields := by
  intro o e he
  obtain ⟨w, hw, hname, _⟩ := mem_written_of_mem_read he
  have hkey (hgroup : AutocompleteSettings.group.toList <+: e.1.toList) :
      e.1 = variableName AutocompleteSettings.group k.field := by
    rw [← hname] at hgroup ⊢
    exact (h.alone o w hw hgroup).2.1
  refine ⟨fun heq => ?_, fun hstart => ?_⟩
  · have hne : AutocompleteSettings.group ≠
        variableName AutocompleteSettings.group k.field := by
      cases k with
      | locales => decide
      | searchAttrs => decide
    exact hne (heq.symm.trans (hkey (by rw [heq])))
  · exact ⟨k.field, k.field_mem, hkey (prefix_of_prefix_delimiter hstart)⟩

theorem sets_exported (k : ListField) (s : String) {before after : List (String × String)}
    (h : Unrelated (before ++ after)) :
    Sets ⟨before ++ (k.exported, s) :: after, none⟩ .environment k s where
  present := by
    refine ⟨(k.exported, some s), List.mem_map.mpr ⟨(k.exported, s), ?_, rfl⟩, k.lower_exported⟩
    simp
  alone o w hw hgroup := by
    cases o with
    | dotEnv => cases hw
    | environment =>
        obtain ⟨b, hb, rfl⟩ := List.mem_map.mp hw
        rcases List.mem_cons.mp (List.perm_middle.mem_iff.mp hb) with rfl | hb
        · exact ⟨rfl, k.lower_exported, rfl⟩
        · exact absurd hgroup (h b hb)

theorem plainName_exported (k : ListField) : DotEnv.PlainName k.exported.toList := by
  cases k with
  | locales => exact ⟨by decide, List.all_eq_true.mp (by decide), by decide⟩
  | searchAttrs => exact ⟨by decide, List.all_eq_true.mp (by decide), by decide⟩

theorem sets_plainLines (k : ListField) {s : String} (hs : DotEnv.PlainText s.toList)
    {exported before after : List (String × String)} (hexported : Unrelated exported)
    (h : Unrelated (before ++ after)) (hplain : DotEnv.PlainLines (before ++ after)) :
    Sets ⟨exported, some (String.join ((before ++ (k.exported, s) :: after).map
      DotEnv.plainLine))⟩ .dotEnv k s := by
  have hlines : DotEnv.PlainLines (before ++ (k.exported, s) :: after) := by
    intro b hb
    rcases List.mem_cons.mp (List.perm_middle.mem_iff.mp hb) with rfl | hb
    · exact ⟨plainName_exported k, hs⟩
    · exact hplain b hb
  refine ⟨?_, fun o w hw hgroup => ?_⟩
  · refine ⟨(k.exported, some s), ?_, k.lower_exported⟩
    rw [written]
    dsimp only
    rw [DotEnv.read_plainLines exported hlines]
    simp
  · cases o with
    | environment =>
        obtain ⟨b, hb, rfl⟩ := List.mem_map.mp hw
        exact absurd hgroup (hexported b hb)
    | dotEnv =>
        rw [written] at hw
        dsimp only at hw
        rw [DotEnv.read_plainLines exported hlines, List.map_map] at hw
        obtain ⟨b, hb, rfl⟩ := List.mem_map.mp hw
        rcases List.mem_cons.mp (List.perm_middle.mem_iff.mp hb) with rfl | hb
        · exact ⟨rfl, k.lower_exported, rfl⟩
        · exact absurd hgroup (h b hb)

end Environment

namespace AutocompleteSettings

open Settings Environment DotEnv

theorem check_locales (v : Value) : check [("locales", v)] =
    (readNames "locales" v).map ListField.locales.put := by
  have hgiven (default : List String) :
      fieldOr [("locales", v)] "locales" default (readNames "locales") =
        readNames "locales" v := rfl
  rw [check, hgiven, fieldOr_of_ne (by decide), fieldOr_of_ne (by decide),
    fieldOr_of_ne (by decide), fieldOr_of_ne (by decide), fieldOr_of_ne (by decide),
    fieldOr_of_ne (by decide), fieldOr_of_ne (by decide), fieldOr_of_ne (by decide)]
  cases readNames "locales" v with
  | ok names => rfl
  | error es => simp [Check.issues, Except.map]

theorem check_searchAttrs (v : Value) : check [("search_attrs", v)] =
    (Check.optional (readNames "search_attrs") v).map fun names =>
      { standard with searchAttrs := names } := by
  have hgiven (default : Option (List String)) :
      fieldOr [("search_attrs", v)] "search_attrs" default
          (Check.optional (readNames "search_attrs")) =
        Check.optional (readNames "search_attrs") v := rfl
  rw [check, hgiven, fieldOr_of_ne (by decide), fieldOr_of_ne (by decide),
    fieldOr_of_ne (by decide), fieldOr_of_ne (by decide), fieldOr_of_ne (by decide),
    fieldOr_of_ne (by decide), fieldOr_of_ne (by decide), fieldOr_of_ne (by decide)]
  cases Check.optional (readNames "search_attrs") v with
  | ok names => rfl
  | error es => simp [Check.issues, Except.map]

/-- A list field on its own is given names when its value is read as these names. -/
theorem check_field (k : ListField) (v : Value) (names : List String) :
    check [(k.field.name, v)] = .ok (k.put names) ↔ readNames k.field.name v = .ok names := by
  cases k with
  | locales =>
      simp only [ListField.field, check_locales]
      cases readNames "locales" v with
      | error es => simp [Except.map]
      | ok found => simp [Except.map, ListField.put]
  | searchAttrs =>
      simp only [ListField.field, check_searchAttrs]
      cases v with
      | null =>
          have hnull : readNames "search_attrs" .null ≠ .ok names := fun h => by
            cases h
          simp [Except.map, ListField.put, Check.optional, hnull]
      | _ =>
          simp only [Check.optional]
          split
          · next h => simp [h, Except.map, ListField.put]
          · next h => simp [h, Except.map]

/-- A list that is given by name is one with commas. -/
theorem load_given_commaList {env : Environment} (h : env.Silent) (k : ListField) (s : String) :
    load env [(k.field.name, .text s)] = .ok (k.put (commaList s)) := by
  have htold (o : SettingsOrigin) (f : SettingsField) : env.told group o f = none := by
    rw [Environment.told, h.lookup?_eq]
    rfl
  refine (load_eq_ok_iff h.namesFields _ _).mpr ⟨fun o f _ => ?_, ?_⟩
  · rw [Environment.ReadableAt, h.lookup?_eq]
    exact fun _ hnone => absurd hnone (by simp)
  · have hcheck : check (env.firstSet group fields [(k.field.name, .text s)]) =
        check [(k.field.name, .text s)] := by
      refine check_congr fun f hf => Or.inl ?_
      rw [Environment.firstSet, get?_fields wellNamed.distinct _ hf, htold, htold]
      simp
    rw [hcheck, check_field, readNames_text]

/-- A variable of a list field sets the field to what it says, unless that is null. -/
theorem load_sets_eq_ok_iff {env : Environment} {origin : SettingsOrigin} {k : ListField}
    {s : String} (h : env.Sets origin k s) (g : AutocompleteSettings) :
    load env [] = .ok g ↔ k.field.Readable (some s) ∧
      check ((setValue (k.field.said (some s))).map fun v => (k.field.name, v)).toList =
        .ok g := by
  have htold (o : SettingsOrigin) {f : SettingsField} (hf : f ∈ fields) :
      env.told group o f = if o = origin ∧ f = k.field then some (f.said (some s)) else none := by
    rw [Environment.told, h.lookup?_eq o hf]
    split
    · rfl
    · rfl
  rw [load_eq_ok_iff h.namesFields]
  refine and_congr ⟨fun hread => ?_, fun hread o f hf text htext => ?_⟩ ?_
  · refine hread origin k.field k.field_mem (some s) ?_
    rw [h.lookup?_eq origin k.field_mem]
    simp
  · rw [h.lookup?_eq o hf] at htext
    split at htext
    · next heq =>
      obtain rfl := Option.some.inj htext
      rw [heq.2]
      exact hread
    · cases htext
  · rw [check_congr fun f hf => Or.inl ?_]
    rw [Environment.firstSet, get?_fields wellNamed.distinct _ hf, htold _ hf, htold _ hf]
    by_cases hfield : f = k.field
    · subst hfield
      cases hvalue : setValue (k.field.said (some s)) with
      | none => cases origin <;> simp [hvalue, Options.get?]
      | some v => cases origin <;> simp [hvalue, Options.get?]
    · have hname : k.field.name ≠ f.name := fun heq =>
        hfield (wellNamed.eq_of_name hf k.field_mem heq.symm)
      cases setValue (k.field.said (some s)) with
      | none => simp [hfield, Options.get?]
      | some v => simp [hfield, hname, Options.get?]

/-- The names that null stands for are not those of the text as a list with commas. -/
theorem put_commaList_ne_standard (k : ListField) {s : String}
    (h : Json.read? s = some .null) : standard ≠ k.put (commaList s) := by
  intro heq
  cases k with
  | locales =>
      have hnames : ["en"] = commaList s := congrArg AutocompleteSettings.locales heq
      have hweight := listWeight_commaList s
      have hnull := Json.weight_of_read?_null h
      have hen : listWeight ["en"] = 2 := by decide
      rw [← hnames, hen] at hweight
      omega
  | searchAttrs => cases congrArg AutocompleteSettings.searchAttrs heq

/-- A variable of a list field gives the list with commas only to listed attributes, and only when
its text is no structured text. -/
theorem load_sets_commaList_iff {env : Environment} {origin : SettingsOrigin} {k : ListField}
    {s : String} (h : env.Sets origin k s) :
    load env [] = .ok (k.put (commaList s)) ↔ k = .searchAttrs ∧ Json.read? s = none := by
  obtain ⟨lenient, hform⟩ : ∃ lenient, k.field.form = .list lenient := by
    cases k with
    | locales => exact ⟨false, rfl⟩
    | searchAttrs => exact ⟨true, rfl⟩
  rw [load_sets_eq_ok_iff h, SettingsField.readable_list hform, SettingsField.said_list hform]
  cases hread : Json.read? s with
  | none =>
      have hcheck := (check_field k (.text s) (commaList s)).mpr (readNames_text _ s)
      cases k with
      | locales =>
          obtain rfl : false = lenient := VariableForm.list.inj hform
          simp
      | searchAttrs =>
          obtain rfl : true = lenient := VariableForm.list.inj hform
          simpa [setValue] using hcheck
  | some v =>
      simp only [Option.getD_some, reduceCtorEq, and_false, iff_false, not_and]
      intro _ hcheck
      cases v with
      | null => exact put_commaList_ne_standard k hread (Except.ok.inj hcheck)
      | _ => exact Json.readNames_ne_commaList hread _ ((check_field k _ _).mp hcheck)

/-- A list field takes a text by name as a list with commas.  An exported variable and a line of a
file give the same names only to listed attributes, and only when the text is no structured text;
so does any other environment in which the variable of the field is all that has to do with the
group.  Names that are joined with commas come back from the text. -/
theorem load_commaList (k : ListField) (s : String) :
    (∀ env : Environment, env.Silent →
      load env [(k.field.name, .text s)] = .ok (k.put (commaList s))) ∧
    (∀ before after, Unrelated (before ++ after) →
      (load ⟨before ++ (k.exported, s) :: after, none⟩ [] = .ok (k.put (commaList s)) ↔
        k = .searchAttrs ∧ Json.read? s = none)) ∧
    (∀ exported before after, Unrelated exported → Unrelated (before ++ after) →
      PlainLines (before ++ after) → PlainText s.toList →
      (load ⟨exported, some (String.join ((before ++ (k.exported, s) :: after).map plainLine))⟩ [] =
          .ok (k.put (commaList s)) ↔
        k = .searchAttrs ∧ Json.read? s = none)) ∧
    (∀ env origin, Sets env origin k s →
      (load env [] = .ok (k.put (commaList s)) ↔ k = .searchAttrs ∧ Json.read? s = none)) ∧
    ∀ names, (∀ n ∈ names, n ≠ "" ∧ Text.trimWith Text.isBlank n.toList = n.toList ∧
      ',' ∉ n.toList) → commaList (",".intercalate names) = names := by
  refine ⟨fun env henv => ?_, fun before after h => ?_, fun exported before after he h hp hs => ?_,
    fun env origin h => ?_, fun names h => ?_⟩
  · exact load_given_commaList henv k s
  · exact load_sets_commaList_iff (sets_exported k s h)
  · exact load_sets_commaList_iff (sets_plainLines k hs he h hp)
  · exact load_sets_commaList_iff h
  · exact commaList_intercalate h

theorem load_commaList_titles :
    load ⟨[], none⟩ [("search_attrs", .text "name, title,")] =
        .ok (ListField.searchAttrs.put ["name", "title"]) ∧
      load ⟨[("PATH", "/bin"), ("AUTOCOMPLETE__SEARCH_ATTRS", "name, title,")], none⟩ [] =
        .ok (ListField.searchAttrs.put ["name", "title"]) ∧
      load ⟨[("PATH", "/bin")], some "AUTOCOMPLETE__SEARCH_ATTRS=name, title,\n"⟩ [] =
        .ok (ListField.searchAttrs.put ["name", "title"]) ∧
      commaList (",".intercalate ["name", "title"]) = ["name", "title"] := by
  obtain ⟨hgiven, hexported, hline, _, hnames⟩ :=
    load_commaList .searchAttrs "name, title,"
  have hread : Json.read? "name, title," = none := rfl
  have hpath : Unrelated [("PATH", "/bin")] := by decide +kernel
  have hplain : PlainText "name, title,".toList := by
    refine ⟨List.all_eq_true.mp (by decide), fun c hc => ?_, fun c hc => ?_⟩
    · obtain rfl : 'n' = c := Option.some.inj hc
      decide
    · obtain rfl : ',' = c := Option.some.inj hc
      decide
  refine ⟨hgiven ⟨[], none⟩ ?_, (hexported [("PATH", "/bin")] [] hpath).mpr ⟨rfl, hread⟩,
    (hline [("PATH", "/bin")] [] [] hpath ?_ ?_ hplain).mpr ⟨rfl, hread⟩, hnames _ (by decide)⟩
  · intro origin w hw
    cases origin with
    | environment => cases hw
    | dotEnv => cases hw
  · exact fun b hb => absurd hb List.not_mem_nil
  · exact fun b hb => absurd hb List.not_mem_nil

/-- Locales that are exported as a list with commas are not loaded, though they are when they are
given by name.  Listed attributes may be structured text by chance. -/
theorem exists_list_unlike :
    (load ⟨[], none⟩ [("locales", .text "en,de")] = .ok (ListField.locales.put ["en", "de"]) ∧
      ∀ g, load ⟨[("AUTOCOMPLETE__LOCALES", "en,de")], none⟩ [] ≠ .ok g) ∧
    load ⟨[], none⟩ [("search_attrs", .text "null")] =
        .ok (ListField.searchAttrs.put ["null"]) ∧
      load ⟨[("AUTOCOMPLETE__SEARCH_ATTRS", "null")], none⟩ [] = .ok standard := by
  have hnone : (load ⟨[("AUTOCOMPLETE__LOCALES", "en,de")], none⟩ []).toOption = none := by
    decide +kernel
  refine ⟨⟨?_, fun g h => ?_⟩, ?_, ?_⟩
  · exact Outcome.eq_ok_of_toOption (by decide +kernel)
  · rw [h] at hnone
    cases hnone
  · exact Outcome.eq_ok_of_toOption (by decide +kernel)
  · exact Outcome.eq_ok_of_toOption (by decide +kernel)

end AutocompleteSettings

end Typeahead
