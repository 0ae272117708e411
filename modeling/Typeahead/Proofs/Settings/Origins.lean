import Mathlib.Data.List.Infix
import Typeahead.Proofs.Outcome
import Typeahead.Proofs.Options
import Typeahead.Proofs.Settings.Variables
import Typeahead.Settings.Group

/-!
# Origins of settings

What an origin says about a field is told by one variable, `Environment.told`.  A group that is
loaded on its own holds, field by field, what is said first: by name, by the environment, by the
file, `Environment.firstSet`.  A null that a variable says does not count there.
-/

namespace Typeahead

namespace SettingsOrigin

theorem forall_iff {P : SettingsOrigin → Prop} :
    (∀ origin, P origin) ↔ P .environment ∧ P .dotEnv := by
  constructor
  · intro h
    exact ⟨h .environment, h .dotEnv⟩
  · rintro ⟨henvironment, hfile⟩ origin
    cases origin with
    | environment => exact henvironment
    | dotEnv => exact hfile

end SettingsOrigin

namespace SettingsField

/-- What a variable says about a field: its text, or the structured text in it if the field is a
list.  A variable without a text says null. -/
def said (f : SettingsField) : Option String → Value
  | none => .null
  | some s =>
      match f.form with
      | .plain => .text s
      | .list _ => (Json.read? s).getD (.text s)

/-- Whether the text of a variable can be read.  Only a list that is not lenient insists on
structured text. -/
def Readable (f : SettingsField) : Option String → Prop
  | none => True
  | some s => f.form = .list false → (Json.read? s).isSome = true

variable {f : SettingsField} {lenient : Bool} {s : String}

theorem said_plain (h : f.form = .plain) : f.said (some s) = .text s := by
  simp only [said, h]

theorem said_list (h : f.form = .list lenient) :
    f.said (some s) = (Json.read? s).getD (.text s) := by
  simp only [said, h]

theorem readable_plain (h : f.form = .plain) : f.Readable (some s) := by
  intro hlist
  rw [h] at hlist
  cases hlist

theorem readable_list (h : f.form = .list lenient) :
    f.Readable (some s) ↔ (lenient = false → (Json.read? s).isSome = true) := by
  simp only [Readable, h, VariableForm.list.injEq]

end SettingsField

namespace Settings

/-- The name of the variable of a field. -/
def variableName (group : String) (f : SettingsField) : String := group ++ delimiter ++ f.name

/-- The names of fields can be told apart and found again in the names of variables. -/
structure WellNamed (fields : List SettingsField) : Prop where
  distinct : (fields.map (·.name)).Nodup
  whole : ∀ f ∈ fields, nameParts f.name.toList = [f.name.toList]
  apart : ∀ f ∈ fields, ∀ g ∈ fields, ¬ (f.name ++ delimiter).toList <+: g.name.toList
  lower : ∀ f ∈ fields, Text.lower f.name = f.name

end Settings

open Settings

namespace Environment

variable (env : Environment) (group : String) (fields : List SettingsField)

/-- What an origin says about a field. -/
def told (origin : SettingsOrigin) (f : SettingsField) : Option Value :=
  ((env.read origin).lookup? (variableName group f)).map f.said

/-- Whether an origin can be read about a field. -/
def ReadableAt (origin : SettingsOrigin) (f : SettingsField) : Prop :=
  ∀ text ∈ (env.read origin).lookup? (variableName group f), f.Readable text

/-- Whether both origins can be read about all fields. -/
def Readable : Prop := ∀ origin, ∀ f ∈ fields, env.ReadableAt group origin f

/-- The variables that start with the name of a group name its fields, and none stands for the
whole group. -/
def NamesFields : Prop := ∀ origin, ∀ e ∈ env.read origin,
  e.1 ≠ group ∧ ((group ++ delimiter).toList <+: e.1.toList →
    ∃ f ∈ fields, e.1 = variableName group f)

instance : Decidable (env.NamesFields group fields) :=
  decidable_of_iff' _ SettingsOrigin.forall_iff

/-- What is said first about each field: by name, by the environment, by the file. -/
def firstSet (given : Options) : Options :=
  fields.filterMap fun f =>
    ((given.get? f.name).or (((env.told group .environment f).bind setValue).or
      ((env.told group .dotEnv f).bind setValue))).map fun v => (f.name, v)

end Environment

namespace Settings

variable {env : Environment} {group : String} {fields : List SettingsField}

theorem WellNamed.eq_of_name (hw : WellNamed fields) {f g : SettingsField} (hf : f ∈ fields)
    (hg : g ∈ fields) (h : f.name = g.name) : f = g :=
  List.inj_on_of_nodup_map hw.distinct hf hg h

theorem variableName_inj {f g : SettingsField} :
    variableName group f = variableName group g ↔ f.name = g.name := by
  simp [variableName]

theorem prefix_variableName (f : SettingsField) :
    (group ++ delimiter).toList <+: (variableName group f).toList := by
  simp [variableName]

theorem partsBehind?_eq_none {start name : String} (h : ¬ start.toList <+: name.toList) :
    partsBehind? start name = none := by
  rw [partsBehind?, if_neg fun hstart => h (List.isPrefixOf_iff_prefix.mp hstart)]

/-- Variables without a start give nothing behind it. -/
theorem nested_of_silent (read : List String → Option String → Except Failure Value)
    {start : String} {vars : Variables} (h : ∀ e ∈ vars, ¬ start.toList <+: e.1.toList)
    (entries : Entries) : nested read start vars entries = .ok entries := by
  induction vars with
  | nil => rfl
  | cons e vars ih =>
      rw [nested, partsBehind?_eq_none (h e List.mem_cons_self)]
      exact ih fun d hd => h d (List.mem_cons_of_mem e hd)

/-- No variable goes on behind the name of a field. -/
theorem not_behind_field (hw : WellNamed fields) (hn : env.NamesFields group fields)
    {f : SettingsField} (hf : f ∈ fields) (origin : SettingsOrigin) :
    ∀ e ∈ env.read origin, ¬ (variableName group f ++ delimiter).toList <+: e.1.toList := by
  intro e he hbehind
  simp only [variableName, String.append_assoc] at hbehind
  have hgroup : (group ++ delimiter).toList <+: e.1.toList := by
    refine List.IsPrefix.trans ⟨(f.name ++ delimiter).toList, ?_⟩ hbehind
    simp
  obtain ⟨g, hg, hname⟩ := (hn origin e he).2 hgroup
  rw [hname, variableName] at hbehind
  simp only [String.toList_append, List.append_assoc, List.prefix_append_right_inj] at hbehind
  refine hw.apart f hf g hg ?_
  rw [String.toList_append]
  exact hbehind

/-- A list is read from structured text; a lenient one may be any text. -/
theorem readList_eq_ok_iff (origin : SettingsOrigin) (name : String) (lenient : Bool)
    (s : String) (v : Value) : readList origin name lenient s = .ok v ↔
      (lenient = false → (Json.read? s).isSome = true) ∧ (Json.read? s).getD (.text s) = v := by
  rw [readList]
  cases Json.read? s with
  | some w => simp
  | none => cases lenient <;> simp

/-- An origin gives a field what it says about it, unless that is null. -/
theorem fieldFrom_eq_ok_iff (hw : WellNamed fields) (hn : env.NamesFields group fields)
    {f : SettingsField} (hf : f ∈ fields) (origin : SettingsOrigin) (v : Option Value) :
    fieldFrom origin (env.read origin) group f = .ok v ↔
      env.ReadableAt group origin f ∧ (env.told group origin f).bind setValue = v := by
  have hget := Variables.get?_eq (env.read origin) (variableName group f)
  -- a list without a variable of its own looks for longer names, and there are none
  have hsilent := nested_of_silent (fun _ v => .ok ((v.map Value.text).getD .null))
    (not_behind_field hw hn hf origin) []
  rw [variableName] at hget hsilent
  rw [fieldFrom, hget, Environment.ReadableAt, Environment.told, variableName]
  cases (env.read origin).lookup? (group ++ delimiter ++ f.name) with
  | none =>
      cases hform : f.form with
      | plain => simp
      | list lenient => simp [hsilent]
  | some text =>
      cases text with
      | none =>
          cases hform : f.form with
          | plain => simp [SettingsField.said, SettingsField.Readable, setValue]
          | list lenient =>
              simp [SettingsField.said, SettingsField.Readable, setValue, hsilent]
      | some s =>
          cases hform : f.form with
          | plain =>
              simp [SettingsField.said_plain hform, SettingsField.readable_plain hform, setValue]
          | list lenient =>
              simp only [Option.join_some, Outcome.bind_eq_ok_iff, Outcome.pure_eq_ok_iff,
                readList_eq_ok_iff]
              simp [SettingsField.said_list hform, SettingsField.readable_list hform]

/-- Two values that no field tells apart: the same one, or two mappings. -/
def Alike (v w : Option Value) : Prop :=
  v = w ∨ ∃ entries others, v = some (.dict entries) ∧ w = some (.dict others)

theorem overlay_none (base : Option Value) : overlay base none = base := by
  unfold overlay
  split
  · next h => cases h
  · rfl
  · next h _ => exact absurd rfl h

/-- A value on top of another one is told apart from itself at most as a mapping. -/
theorem overlay_alike (base top : Option Value) : Alike (overlay base top) (top.or base) := by
  unfold overlay
  split
  · exact Or.inr ⟨_, _, rfl, rfl⟩
  · exact Or.inl (Option.none_or).symm
  · next base top hnone _ =>
    obtain ⟨v, rfl⟩ := Option.ne_none_iff_exists'.mp hnone
    exact Or.inl rfl

theorem Alike.trans {u v w : Option Value} (h : Alike u v) (h' : Alike v w) : Alike u w := by
  rcases h with rfl | ⟨entries, others, rfl, rfl⟩
  · exact h'
  · rcases h' with rfl | ⟨_, more, _, rfl⟩
    · exact Or.inr ⟨_, _, rfl, rfl⟩
    · exact Or.inr ⟨_, _, rfl, rfl⟩

theorem Alike.or_left {v w : Option Value} (u : Option Value) (h : Alike v w) :
    Alike (v.or u) (w.or u) := by
  rcases h with rfl | ⟨entries, others, rfl, rfl⟩
  · exact Or.inl rfl
  · exact Or.inr ⟨entries, others, rfl, rfl⟩

theorem Alike.or_right {v w : Option Value} (u : Option Value) (h : Alike v w) :
    Alike (u.or v) (u.or w) := by
  cases u with
  | none => simpa using h
  | some u => exact Or.inl rfl

/-- A field is found among the values of distinct fields. -/
theorem get?_fields (hdistinct : (fields.map (·.name)).Nodup)
    (value : SettingsField → Option Value) {f : SettingsField} (hf : f ∈ fields) :
    Options.get? (fields.filterMap fun f => (value f).map fun v => (f.name, v)) f.name =
      value f := by
  induction fields with
  | nil => cases hf
  | cons g fields ih =>
      obtain ⟨hg, hrest⟩ := List.nodup_cons.mp hdistinct
      rw [List.filterMap_cons]
      rcases List.mem_cons.mp hf with rfl | hf
      · cases hvalue : value f with
        | some v => simp [Options.get?_cons]
        | none =>
            simp only [Option.map_none, Options.get?, Option.map_eq_none_iff, List.find?_eq_none]
            intro e he hname
            obtain ⟨g, hmem, hgv⟩ := List.mem_filterMap.mp he
            obtain ⟨v, _, rfl⟩ := Option.map_eq_some_iff.mp hgv
            exact hg (List.mem_map.mpr ⟨g, hmem, eq_of_beq hname⟩)
      · have hne : g.name ≠ f.name := fun heq => hg (List.mem_map.mpr ⟨f, hf, heq.symm⟩)
        cases value g with
        | none => exact ih hrest hf
        | some v => simp [Options.get?_cons, hne, ih hrest hf]

theorem zip_map_map (a b : SettingsField → Option Value) (fs : List SettingsField) :
    fs.zip ((fs.map a).zip (fs.map b)) = fs.map fun f => (f, a f, b f) := by
  induction fs with
  | nil => rfl
  | cons f fs ih => simp [ih]

/-- Both origins are read about all fields, and what is given is put on top. -/
theorem collect_eq_ok_iff (hw : WellNamed fields) (hn : env.NamesFields group fields)
    (given values : Options) : collect env group fields given = .ok values ↔
      env.Readable group fields ∧ (fields.filterMap fun f =>
        (overlay (overlay ((env.told group .dotEnv f).bind setValue)
          ((env.told group .environment f).bind setValue)) (given.get? f.name)).map
            fun v => (f.name, v)) = values := by
  have hmap (origin : SettingsOrigin) := Outcome.mapM_eq_ok_iff_map
    fun f hf => fieldFrom_eq_ok_iff hw hn hf origin
  rw [collect, Environment.Readable, SettingsOrigin.forall_iff]
  simp only [Outcome.bind_eq_ok_iff, Outcome.pure_eq_ok_iff, hmap]
  constructor
  · rintro ⟨_, ⟨houter, rfl⟩, _, ⟨hfile, rfl⟩, rfl⟩
    refine ⟨⟨houter, hfile⟩, ?_⟩
    rw [zip_map_map, List.filterMap_map]
    rfl
  · rintro ⟨⟨houter, hfile⟩, rfl⟩
    refine ⟨_, ⟨houter, rfl⟩, _, ⟨hfile, rfl⟩, ?_⟩
    rw [zip_map_map, List.filterMap_map]
    rfl

/-- A group is read from what is said first about its fields, as long as its check does not tell
mappings apart. -/
theorem exists_collect_iff {α : Type} {check : Options → Check.Outcome α}
    (hcheck : ∀ o o' : Options, (∀ f ∈ fields, Alike (o.get? f.name) (o'.get? f.name)) →
      check o = check o')
    (hw : WellNamed fields) (hn : env.NamesFields group fields) (given : Options) (a : α) :
    (∃ values, collect env group fields given = .ok values ∧ check values = .ok a) ↔
      env.Readable group fields ∧ check (env.firstSet group fields given) = .ok a := by
  -- the sources are merged where both hold mappings, which no check of a field accepts
  have hsame := hcheck (fields.filterMap fun f =>
      (overlay (overlay ((env.told group .dotEnv f).bind setValue)
        ((env.told group .environment f).bind setValue)) (given.get? f.name)).map
          fun v => (f.name, v)) (env.firstSet group fields given) fun f hf => by
    rw [get?_fields hw.distinct _ hf, Environment.firstSet, get?_fields hw.distinct _ hf]
    exact (overlay_alike _ _).trans ((overlay_alike _ _).or_right _)
  simp only [collect_eq_ok_iff hw hn]
  constructor
  · rintro ⟨_, ⟨hreadable, rfl⟩, hvalues⟩
    exact ⟨hreadable, hsame ▸ hvalues⟩
  · rintro ⟨hreadable, hvalues⟩
    exact ⟨_, ⟨hreadable, rfl⟩, hsame ▸ hvalues⟩

/-- A field reads alike values alike when its reader does not tell mappings apart. -/
theorem fieldOr_congr {α : Type} {o o' : Options} {name : String} (default : α)
    {read : Value → Check.Outcome α} (h : Alike (o.get? name) (o'.get? name))
    (hdict : ∀ entries others, read (.dict entries) = read (.dict others)) :
    fieldOr o name default read = fieldOr o' name default read := by
  rcases h with heq | ⟨entries, others, h, h'⟩
  · rw [fieldOr, fieldOr, heq]
  · rw [fieldOr, fieldOr, h, h']
    exact hdict entries others

end Settings

namespace AutocompleteSettings

theorem wellNamed : WellNamed fields where
  distinct := by decide
  whole := by decide
  apart := by decide
  lower := by decide +kernel

theorem check_congr {o o' : Options}
    (h : ∀ f ∈ fields, Alike (o.get? f.name) (o'.get? f.name)) : check o = check o' := by
  simp only [fields, List.forall_mem_cons] at h
  obtain ⟨h₁, h₂, h₃, h₄, h₅, h₆, h₇, h₈, h₉, _⟩ := h
  rw [check, check, fieldOr_congr _ h₁ fun _ _ => rfl, fieldOr_congr _ h₂ fun _ _ => rfl,
    fieldOr_congr _ h₃ fun _ _ => rfl, fieldOr_congr _ h₄ fun _ _ => rfl,
    fieldOr_congr _ h₅ fun _ _ => rfl, fieldOr_congr _ h₆ fun _ _ => rfl,
    fieldOr_congr _ h₇ fun _ _ => rfl, fieldOr_congr _ h₈ fun _ _ => rfl,
    fieldOr_congr _ h₉ fun _ _ => rfl]

/-- Loading the group reads what is said first about its fields. -/
theorem load_eq_ok_iff {env : Environment} (hn : env.NamesFields group fields) (given : Options)
    (g : AutocompleteSettings) : load env given = .ok g ↔
      env.Readable group fields ∧ check (env.firstSet group fields given) = .ok g := by
  rw [← exists_collect_iff (fun _ _ => check_congr) wellNamed hn, load,
    Outcome.bind_eq_ok_iff]
  refine exists_congr fun values => and_congr_right fun _ => ?_
  cases check values with
  | ok s => simp [Outcome.pure_eq_ok_iff]
  | error es => simp

end AutocompleteSettings

namespace ConnectionSettings

theorem wellNamed : WellNamed fields where
  distinct := by decide
  whole := by decide
  apart := by decide
  lower := by decide +kernel

theorem check_congr {o o' : Options}
    (h : ∀ f ∈ fields, Alike (o.get? f.name) (o'.get? f.name)) : check o = check o' := by
  simp only [fields, List.forall_mem_cons] at h
  obtain ⟨h₁, h₂, h₃, h₄, _⟩ := h
  rw [check, check, fieldOr_congr _ h₁ fun _ _ => rfl, fieldOr_congr _ h₂ fun _ _ => rfl,
    fieldOr_congr _ h₃ fun _ _ => rfl, fieldOr_congr _ h₄ fun _ _ => rfl]

/-- Loading the group reads what is said first about its fields. -/
theorem load_eq_ok_iff {env : Environment} (hn : env.NamesFields group fields) (given : Options)
    (g : ConnectionSettings) : load env given = .ok g ↔
      env.Readable group fields ∧ check (env.firstSet group fields given) = .ok g := by
  rw [← exists_collect_iff (fun _ _ => check_congr) wellNamed hn, load,
    Outcome.bind_eq_ok_iff]
  refine exists_congr fun values => and_congr_right fun _ => ?_
  cases check values with
  | ok s => simp [Outcome.pure_eq_ok_iff]
  | error es => simp

end ConnectionSettings

end Typeahead
