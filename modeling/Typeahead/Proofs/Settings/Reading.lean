import Typeahead.Proofs.Check
import Typeahead.Proofs.Number.Numerals
import Typeahead.Proofs.Options
import Typeahead.Proofs.Outcome
import Typeahead.Proofs.Value.Same
import Typeahead.Search.Request
import Typeahead.Settings.Group

/-!
# What settings are read from

The checks of settings fields accept values of more than one kind.  Each check says here what the
value holds that it accepts, and `AutocompleteSettings.Reads` says it for a whole group.
-/

namespace Typeahead

namespace Value

/-- A number counts as true unless it is zero. -/
theorem truthy_of_quotient? {v : Value} {p : Int × Nat} (h : v.quotient? = some p) :
    v.truthy = (p.1 != 0) := by
  cases v with
  | bool b =>
      obtain rfl := Option.some.inj h
      cases b with
      | true => rfl
      | false => rfl
  | int n =>
      obtain rfl := Option.some.inj h
      rfl
  | float x =>
      cases x with
      | nan => cases h
      | infinite negative => cases h
      | finite negative m e =>
          obtain rfl := Option.some.inj h
          rw [Bool.eq_iff_iff, bne_iff_ne]
          cases negative with
          | true => simp [truthy, Binary64.isZero]
          | false => simp [truthy, Binary64.isZero]
  | _ => cases h

/-- What is the same as a truth value counts as this one. -/
theorem truthy_of_same {v : Value} {b : Bool} (h : v.same (.bool b) = true) : v.truthy = b := by
  obtain ⟨p, hp⟩ : ∃ p, v.quotient? = some p := by
    cases v with
    | bool a => exact ⟨_, rfl⟩
    | int n => exact ⟨_, rfl⟩
    | float x =>
        rw [same, Binary64.sameInt] at h
        split at h
        · next p hp => exact ⟨p, hp⟩
        · cases h
    | _ => cases h
  obtain ⟨q, hq, heq⟩ := (same_iff_of_quotient? hp _).mp h
  obtain rfl := Option.some.inj hq
  rw [truthy_of_quotient? hp, Bool.eq_iff_iff, bne_iff_ne]
  have hpos := quotient?_pos hp
  cases b with
  | true =>
      have hp1 : p.1 = p.2 := by simpa [ofBool] using heq
      rw [hp1]
      exact ⟨fun _ => rfl, fun _ => by omega⟩
  | false =>
      have hp1 : p.1 = 0 := by simpa [ofBool] using heq
      rw [hp1]
      exact ⟨fun hne => absurd rfl hne, fun h => by cases h⟩

end Value

namespace Check

/-- A truth value that is not given as text is the same as what it is read as. -/
theorem same_of_readBool {v : Value} {b : Bool} (h : readBool v = .ok b) :
    v.same (.bool b) = true ∨ ∃ s, v = .text s := by
  cases v with
  | bool a =>
      obtain rfl := Except.ok.inj h
      exact Or.inl (by simp [Value.same])
  | int n =>
      refine Or.inl ?_
      simp only [readBool] at h
      split at h
      · next hn =>
        obtain rfl := Except.ok.inj h
        rw [hn]
        rfl
      · split at h
        · next hn =>
          obtain rfl := Except.ok.inj h
          rw [hn]
          rfl
        · split at h
          · cases h
          · cases h
  | float x =>
      refine Or.inl ?_
      simp only [readBool] at h
      split at h
      · next hzero =>
        obtain rfl := Except.ok.inj h
        exact hzero
      · split at h
        · next hone =>
          obtain rfl := Except.ok.inj h
          exact hone
        · split at h
          · split at h
            · cases h
            · cases h
          · cases h
  | text s => exact Or.inr ⟨s, rfl⟩
  | _ => cases h

end Check

namespace Mode

/-- A mode is found under the name that settings read it from. -/
theorem resolve_of_readMode {v : Value} {mode : Mode} (h : Settings.readMode v = .ok mode) :
    resolve v = .ok mode := by
  unfold Settings.readMode at h
  split at h
  · next s =>
    split at h
    · next m hm =>
      rw [resolve]
      dsimp only [Value.text?]
      rw [Option.bind_some, hm, Except.ok.inj h]
    · cases h
  · cases h

end Mode

namespace Settings

/-- A list of names is read from a list or a tuple of them, or from text with commas. -/
theorem readNames_eq_ok {name : String} {v : Value} {names : List String}
    (h : readNames name v = .ok names) :
    v = .list (names.map .text) ∨ v = .tuple (names.map .text) ∨
      ∃ s, v = .text s ∧ names = commaList s := by
  obtain ⟨vs, hvs, hitems⟩ := Check.sequence_eq_ok h
  have hnames := Check.items_readText hitems
  cases v with
  | list items =>
      obtain rfl := Option.some.inj hvs
      exact Or.inl (congrArg Value.list hnames)
  | tuple items =>
      obtain rfl := Option.some.inj hvs
      exact Or.inr (Or.inl (congrArg Value.tuple hnames))
  | text s =>
      obtain rfl := Option.some.inj hvs
      have hinjective := List.map_injective_iff.mpr fun _ _ => Value.text.inj
      exact Or.inr (Or.inr ⟨s, rfl, (hinjective hnames).symm⟩)
  | _ => cases hvs

end Settings

namespace Request

/-- What settings read as a whole number, a request reads as the same one, except that it refuses
text with a fraction. -/
theorem wholeNumber_of_readInt {v : Value} {n : Int} (h : Check.readInt v = .ok n) :
    GeoPoint.present v = true ∧ (wholeNumber? v = .ok (some n) ∨
      wholeNumber? v = .ok none ∧ ∃ s, v = .text s ∧ '.' ∈ s.toList) := by
  cases v with
  | bool b =>
      obtain rfl := Except.ok.inj h
      exact ⟨rfl, Or.inl rfl⟩
  | int m =>
      obtain rfl := Except.ok.inj h
      exact ⟨rfl, Or.inl rfl⟩
  | float x =>
      refine ⟨rfl, Or.inl ?_⟩
      simp only [Check.readInt] at h
      cases x with
      | nan => cases h
      | infinite negative => cases h
      | finite negative m e =>
          have hwhole : wholeNumber? (.float (.finite negative m e)) =
              .ok (Binary64.truncate? (.finite negative m e)) := rfl
          rw [hwhole]
          split at h
          · cases h
          · next k hk =>
            rw [hk]
            split at h
            · cases h
            · split at h
              · rw [Except.ok.inj h]
              · cases h
  | text s =>
      simp only [Check.readInt] at h
      split at h
      · next k hk =>
        obtain rfl := Except.ok.inj h
        refine ⟨by rw [GeoPoint.present, Numeral.notBlank_of_readStrictInt hk]; rfl, ?_⟩
        by_cases hpoint : '.' ∈ s.toList
        · exact Or.inr ⟨by rw [wholeNumber?, Numeral.readInt_of_point hpoint], s, rfl, hpoint⟩
        · exact Or.inl (by rw [wholeNumber?, Numeral.readInt_of_readStrictInt hk hpoint])
      · cases h
      · cases h
  | _ => cases h

/-- So it comes to the same size, unless the fraction hides one. -/
theorem positiveInt_of_readInt {default n : Int} {v : Value} (h : Check.readInt v = .ok n)
    (hpoint : ∀ s, v = .text s → '.' ∈ s.toList → n ≤ 0 ∨ n = default) :
    positiveInt default v = positiveInt default (.int n) := by
  obtain ⟨hpresent, hread⟩ := wholeNumber_of_readInt h
  have hint : positiveInt default (.int n) = .ok (if 0 < n then n else default) := rfl
  rw [hint, positiveInt, if_pos hpresent]
  rcases hread with hread | ⟨hread, s, hs, hs'⟩
  · rw [hread]
    rfl
  · rw [hread]
    refine congrArg Except.ok ?_
    rcases hpoint s hs hs' with hn | rfl
    · exact (if_neg (Int.not_lt.mpr hn)).symm
    · exact (ite_self n).symm

end Request

namespace Settings

/-- A value on top of another one stays, unless it is a mapping. -/
theorem overlay_some (base : Option Value) (v : Value) :
    overlay base (some v) = some v ∨ ∃ entries, overlay base (some v) = some (.dict entries) := by
  unfold overlay
  split
  · exact Or.inr ⟨_, rfl⟩
  · next h => cases h
  · exact Or.inl rfl

/-- The value of a name comes from an entry of this name. -/
theorem get?_filterMap {α : Type} (name : α → String) (value : α → Option Value) {n : String}
    {es : List α} (hsome : ∀ e ∈ es, name e = n → (value e).isSome = true)
    (hn : ∃ e ∈ es, name e = n) : ∃ e ∈ es, name e = n ∧
      Options.get? (es.filterMap fun e => (value e).map fun v => (name e, v)) n = value e := by
  induction es with
  | nil =>
      obtain ⟨e, he, _⟩ := hn
      cases he
  | cons e es ih =>
      by_cases hname : name e = n
      · obtain ⟨v, hv⟩ := Option.isSome_iff_exists.mp (hsome e List.mem_cons_self hname)
        refine ⟨e, List.mem_cons_self, hname, ?_⟩
        rw [List.filterMap_cons, hv]
        dsimp only [Option.map_some]
        rw [Options.get?_cons, if_pos hname]
      · obtain ⟨d, hd, hdname, hget⟩ := ih (fun d hd => hsome d (List.mem_cons_of_mem e hd)) (by
          obtain ⟨d, hd, hdname⟩ := hn
          rcases List.mem_cons.mp hd with rfl | hd
          · exact absurd hdname hname
          · exact ⟨d, hd, hdname⟩)
        refine ⟨d, List.mem_cons_of_mem e hd, hdname, ?_⟩
        rw [List.filterMap_cons]
        cases value e with
        | none => exact hget
        | some v =>
            dsimp only [Option.map_some]
            rw [Options.get?_cons, if_neg hname, hget]

/-- What is given for a field of a group is on top of what the variables say. -/
theorem get?_collect {env : Environment} {group : String} {fields : List SettingsField}
    {given values : Options} (h : collect env group fields given = .ok values)
    {field : SettingsField} (hfield : field ∈ fields) {v : Value}
    (hv : given.get? field.name = some v) :
    ∃ base, values.get? field.name = overlay base (some v) := by
  obtain ⟨outer, houter, h⟩ := (Outcome.bind_eq_ok_iff _ _ _).mp h
  obtain ⟨file, hfile, h⟩ := (Outcome.bind_eq_ok_iff _ _ _).mp h
  obtain rfl := (Outcome.pure_eq_ok_iff _ _).mp h
  have houter := ((Outcome.mapM_eq_ok_iff _ _ _).mp houter).length_eq
  have hfile := ((Outcome.mapM_eq_ok_iff _ _ _).mp hfile).length_eq
  have hzip : (fields.zip (outer.zip file)).map Prod.fst = fields := by
    refine List.map_fst_zip ?_
    rw [List.length_zip, ← houter, ← hfile, Nat.min_self]
  obtain ⟨e, he, rfl⟩ := List.mem_map.mp (hzip ▸ hfield)
  obtain ⟨d, _, hname, hget⟩ := get?_filterMap (fun e => e.1.name)
    (fun e => overlay (overlay e.2.2 e.2.1) (given.get? e.1.name)) (n := e.1.name)
    (fun d _ hd => by
      rw [hd, hv]
      rcases overlay_some (overlay d.2.2 d.2.1) v with h | ⟨entries, h⟩
      · rw [h]
        rfl
      · rw [h]
        rfl) ⟨e, he, rfl⟩
  rw [hname, hv] at hget
  exact ⟨_, hget⟩

end Settings

/-- A value is given under a name, and a reader takes it for something. -/
def Options.ReadsAs {α : Type} (o : Options) (name : String) (read : Value → Check.Outcome α)
    (a : α) : Prop :=
  ∃ v, o.get? name = some v ∧ read v = .ok a

namespace AutocompleteSettings

/-- What a group holds that was read from options which give a value to every field. -/
structure Reads (o : Options) (g : AutocompleteSettings) : Prop where
  attr : o.ReadsAs "attr" (Check.field "attr" Check.readText) g.attr
  localized : o.ReadsAs "localized" (Check.field "localized" Check.readBool) g.localized
  mode : o.ReadsAs "mode" (Check.field "mode" Settings.readMode) g.mode
  locales : o.ReadsAs "locales" (Settings.readNames "locales") g.locales
  searchAttrs : o.ReadsAs "search_attrs" (Check.optional (Settings.readNames "search_attrs"))
    g.searchAttrs
  indexPrefix : o.ReadsAs "index_prefix"
    (Check.optional (Check.field "index_prefix" Check.readText)) g.indexPrefix
  commitCallbacks : o.ReadsAs "commit_callbacks" (Check.field "commit_callbacks" Check.readBool)
    g.commitCallbacks
  perPage : o.ReadsAs "per_page" (Check.field "per_page" Check.readInt) g.perPage
  geoField : o.ReadsAs "geo_field" (Check.field "geo_field" Check.readText) g.geoField

/-- The fields of a group are read one by one. -/
theorem fieldOr_of_check {values : Options} {g : AutocompleteSettings}
    (h : check values = .ok g) :
    Settings.fieldOr values "attr" standard.attr (Check.field "attr" Check.readText) =
        .ok g.attr ∧
      Settings.fieldOr values "localized" standard.localized
        (Check.field "localized" Check.readBool) = .ok g.localized ∧
      Settings.fieldOr values "mode" standard.mode (Check.field "mode" Settings.readMode) =
        .ok g.mode ∧
      Settings.fieldOr values "locales" standard.locales (Settings.readNames "locales") =
        .ok g.locales ∧
      Settings.fieldOr values "search_attrs" standard.searchAttrs
        (Check.optional (Settings.readNames "search_attrs")) = .ok g.searchAttrs ∧
      Settings.fieldOr values "index_prefix" standard.indexPrefix
        (Check.optional (Check.field "index_prefix" Check.readText)) = .ok g.indexPrefix ∧
      Settings.fieldOr values "commit_callbacks" standard.commitCallbacks
        (Check.field "commit_callbacks" Check.readBool) = .ok g.commitCallbacks ∧
      Settings.fieldOr values "per_page" standard.perPage (Check.field "per_page" Check.readInt) =
        .ok g.perPage ∧
      Settings.fieldOr values "geo_field" standard.geoField
        (Check.field "geo_field" Check.readText) = .ok g.geoField := by
  rw [check] at h
  split at h
  · next h₁ h₂ h₃ h₄ h₅ h₆ h₇ h₈ h₉ =>
    obtain rfl := Except.ok.inj h
    exact ⟨h₁, h₂, h₃, h₄, h₅, h₆, h₇, h₈, h₉⟩
  · cases h

/-- A reader that refuses mappings reads what is given for a field. -/
theorem readsAs_of_collect {α : Type} {env : Environment} {o values : Options}
    (hvalues : Settings.collect env group fields o = .ok values) (name : String) {default a : α}
    {read : Value → Check.Outcome α} (hfield : name ∈ fields.map (·.name))
    (hgiven : (o.get? name).isSome = true) (hdict : ∀ entries, read (.dict entries) ≠ .ok a)
    (h : Settings.fieldOr values name default read = .ok a) : o.ReadsAs name read a := by
  obtain ⟨v, hv⟩ := Option.isSome_iff_exists.mp hgiven
  obtain ⟨field, hmem, rfl⟩ := List.mem_map.mp hfield
  obtain ⟨base, hbase⟩ := Settings.get?_collect hvalues hmem hv
  rw [Settings.fieldOr, hbase] at h
  rcases Settings.overlay_some base v with hover | ⟨entries, hover⟩
  · rw [hover] at h
    exact ⟨v, hv, h⟩
  · rw [hover] at h
    exact absurd h (hdict entries)

/-- A group is read from the options alone when they give a value to every field. -/
theorem reads_of_load {env : Environment} {o : Options} {g : AutocompleteSettings}
    (h : load env o = .ok g) (hall : ∀ name ∈ fields.map (·.name), (o.get? name).isSome = true) :
    Reads o g := by
  obtain ⟨values, hvalues, h⟩ := (Outcome.bind_eq_ok_iff _ _ _).mp h
  have hcheck : check values = .ok g := by
    split at h
    · next s hs => rw [hs, (Outcome.pure_eq_ok_iff _ _).mp h]
    · cases h
  have hread {α : Type} (name : String) {default a : α} {read : Value → Check.Outcome α}
      (hname : name ∈ fields.map (·.name)) (hdict : ∀ entries, read (.dict entries) ≠ .ok a)
      (hfield : Settings.fieldOr values name default read = .ok a) : o.ReadsAs name read a :=
    readsAs_of_collect hvalues name hname (hall name hname) hdict hfield
  obtain ⟨h₁, h₂, h₃, h₄, h₅, h₆, h₇, h₈, h₉⟩ := fieldOr_of_check hcheck
  exact {
    attr := hread _ (by decide) (fun _ h => by cases h) h₁
    localized := hread _ (by decide) (fun _ h => by cases h) h₂
    mode := hread _ (by decide) (fun _ h => by cases h) h₃
    locales := hread _ (by decide) (fun _ h => by cases h) h₄
    searchAttrs := hread _ (by decide) (fun _ h => by cases h) h₅
    indexPrefix := hread _ (by decide) (fun _ h => by cases h) h₆
    commitCallbacks := hread _ (by decide) (fun _ h => by cases h) h₇
    perPage := hread _ (by decide) (fun _ h => by cases h) h₈
    geoField := hread _ (by decide) (fun _ h => by cases h) h₉ }

end AutocompleteSettings

end Typeahead
