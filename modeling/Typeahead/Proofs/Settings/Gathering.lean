import Mathlib.Data.List.Nodup
import Typeahead.Proofs.Mapping.Declared
import Typeahead.Proofs.Settings.Origins
import Typeahead.Settings.Load

/-!
# Groups gathered from variables

All settings gather the variables of a group into a mapping.  It holds what is told about each
field of the group, and nothing else, `Gathered`.  Gathering fails less often than loading the
group: text that cannot be read for a list is passed over when it is empty.
-/

namespace Typeahead

namespace Entries

theorem lookup_of_distinct_cons {n : String} {value : Value} {entries : Entries}
    (h : Distinct ((.text n, value) :: entries)) : lookup entries (.text n) = none := by
  obtain ⟨hhead, _⟩ := List.pairwise_cons.mp h
  refine Option.map_eq_none_iff.mpr (List.find?_eq_none.mpr fun e he hsame => ?_)
  have hne := hhead e he
  rw [(Value.same_text_right_iff e.1 n).mp hsame, same_text_self] at hne
  cases hne

end Entries

namespace Settings

open Entries

/-- An entry is put on top of what stands under its key. -/
theorem merge_cons (base : Entries) (k v : Value) (rest : Entries) :
    ∃ w, overlay (lookup base k) (some v) = some w ∧
      merge base ((k, v) :: rest) = merge (insert base k w) rest := by
  cases v with
  | dict inner =>
      rw [merge]
      split
      · next under hunder =>
        rw [hunder]
        exact ⟨_, rfl, rfl⟩
      · next hunder =>
        refine ⟨.dict inner, ?_, rfl⟩
        unfold overlay
        split
        · next under _ hbase htop => exact absurd hbase (hunder under)
        · next h => cases h
        · rfl
  | _ =>
      refine ⟨_, ?_, by rw [merge]; simp⟩
      unfold overlay
      split
      · next h => cases h
      · next h => cases h
      · rfl

/-- A merged mapping has under each name what is on top there. -/
theorem lookup_merge {base top : Entries} (hnamed : top.Named) (hdistinct : top.Distinct)
    (n : String) : lookup (merge base top) (.text n) =
      overlay (lookup base (.text n)) (lookup top (.text n)) := by
  induction top generalizing base with
  | nil =>
      rw [merge]
      exact (overlay_none _).symm
  | cons e top ih =>
      obtain ⟨m, hm⟩ := hnamed e List.mem_cons_self
      obtain ⟨k, v⟩ := e
      obtain rfl : k = .text m := hm
      obtain ⟨w, hw, hmerge⟩ := merge_cons base (.text m) v top
      have hnext := lookup_of_distinct_cons hdistinct
      rw [hmerge, ih (fun d hd => hnamed d (List.mem_cons_of_mem _ hd))
        (List.pairwise_cons.mp hdistinct).2, lookup_insert, lookup_cons_text]
      by_cases hn : m = n
      · subst hn
        simp only [if_true, hnext, hw, overlay_none]
      · have hkey : ¬ (Value.text m = .text n) := fun h => hn (Value.text.inj h)
        rw [if_neg hn, if_neg hkey]

variable {env : Environment} {group : String} {fields : List SettingsField}

/-! The names of fields. -/

theorem WellNamed.find?_name (hw : WellNamed fields) {f : SettingsField} (hf : f ∈ fields) :
    fields.find? (fun g => g.name == f.name) = some f := by
  cases hfind : fields.find? (fun g => g.name == f.name) with
  | none => exact absurd (beq_self_eq_true f.name) (List.find?_eq_none.mp hfind f hf)
  | some g =>
      have hname : g.name = f.name := by simpa using List.find?_some hfind
      rw [hw.eq_of_name (List.mem_of_find?_eq_some hfind) hf hname]

theorem partsBehind?_variableName (hw : WellNamed fields) {f : SettingsField} (hf : f ∈ fields) :
    partsBehind? (group ++ delimiter) (variableName group f) = some [f.name] := by
  rw [partsBehind?, if_pos (List.isPrefixOf_iff_prefix.mpr (prefix_variableName f))]
  have hdrop : (variableName group f).toList.drop (group ++ delimiter).length =
      f.name.toList := by
    rw [variableName, String.toList_append, ← String.length_toList, List.drop_left]
  rw [hdrop, hw.whole f hf]
  simp

theorem formOf_name (hw : WellNamed fields) {f : SettingsField} (hf : f ∈ fields) :
    formOf fields f.name = f.form := by
  rw [formOf, hw.find?_name hf]

theorem innerValue_eq_ok (hw : WellNamed fields) {f : SettingsField} (hf : f ∈ fields)
    {origin : SettingsOrigin} {text : Option String} {v : Value}
    (h : innerValue origin group fields [f.name] text = .ok v) : f.said text = v := by
  cases text with
  | none => exact Except.ok.inj h
  | some s =>
      rw [innerValue, formOf_name hw hf] at h
      cases hform : f.form with
      | plain =>
          rw [hform] at h
          rw [SettingsField.said_plain hform]
          exact Except.ok.inj h
      | list lenient =>
          simp only [hform] at h
          rw [SettingsField.said_list hform]
          split at h
          · next hs =>
            subst hs
            exact Except.ok.inj h
          · exact ((readList_eq_ok_iff _ _ _ _ _).mp h).2

theorem innerValue_of_readable (hw : WellNamed fields) {f : SettingsField} (hf : f ∈ fields)
    (origin : SettingsOrigin) (group : String) {text : Option String} (h : f.Readable text) :
    ∃ v, innerValue origin group fields [f.name] text = .ok v := by
  cases text with
  | none => exact ⟨.null, rfl⟩
  | some s =>
      rw [innerValue, formOf_name hw hf]
      cases hform : f.form with
      | plain => exact ⟨_, rfl⟩
      | list lenient =>
          dsimp only
          split
          · exact ⟨_, rfl⟩
          · exact ⟨_, (readList_eq_ok_iff _ _ _ _ _).mpr
              ⟨(SettingsField.readable_list hform).mp h, rfl⟩⟩

/-! What is gathered about the fields of a group. -/

/-- A mapping holds a value under the name of each field, and nothing else. -/
structure Gathered (fields : List SettingsField) (value : SettingsField → Option Value)
    (entries : Entries) : Prop where
  keys : ∀ e ∈ entries, ∃ f ∈ fields, e.1 = .text f.name
  distinct : entries.Distinct
  lookup : ∀ f ∈ fields, entries.lookup (.text f.name) = value f

namespace Gathered

variable {value : SettingsField → Option Value} {entries : Entries}

theorem named (h : Gathered fields value entries) : entries.Named := by
  intro e he
  obtain ⟨f, _, hname⟩ := h.keys e he
  exact ⟨f.name, hname⟩

theorem nil : Gathered fields (fun _ => none) [] :=
  ⟨fun _ h => (List.not_mem_nil h).elim, List.Pairwise.nil, fun _ _ => rfl⟩

theorem congr {other : SettingsField → Option Value} (h : Gathered fields value entries)
    (heq : ∀ f ∈ fields, value f = other f) : Gathered fields other entries :=
  ⟨h.keys, h.distinct, fun f hf => (h.lookup f hf).trans (heq f hf)⟩

theorem insert (h : Gathered fields value entries) {f : SettingsField} (hf : f ∈ fields)
    (v : Value) : Gathered fields (fun g => if f.name = g.name then some v else value g)
      (entries.insert (.text f.name) v) where
  keys e he := by
    have hkey : e.1 ∈ (entries.insert (.text f.name) v).map (·.1) := List.mem_map_of_mem he
    have hold : e.1 ∈ entries.map (·.1) → ∃ g ∈ fields, e.1 = .text g.name := by
      intro hmem
      obtain ⟨d, hd, heq⟩ := List.mem_map.mp hmem
      rw [← heq]
      exact h.keys d hd
    rw [map_insert] at hkey
    split at hkey
    · exact hold hkey
    · rcases List.mem_append.mp hkey with hkey | hkey
      · exact hold hkey
      · exact ⟨f, hf, List.mem_singleton.mp hkey⟩
  distinct := insert_distinct h.distinct f.name v
  lookup g hg := by rw [lookup_insert, h.lookup g hg]

/-- The keys are in the case of the fields already. -/
theorem matchNames_eq (hw : WellNamed fields) (h : Gathered fields value entries) :
    matchNames fields entries = entries := by
  refine (congrArg ofList ?_).trans (ofList_of_distinct h.distinct)
  refine (List.map_congr_left fun e he => ?_).trans (List.map_id entries)
  obtain ⟨f, hf, hname⟩ := h.keys e he
  obtain ⟨k, v⟩ := e
  obtain rfl : k = .text f.name := hname
  simp only [hw.lower f hf, hw.find?_name hf, id]

end Gathered

section Variables

variable {origin : SettingsOrigin} {vars : Variables}

/-- Variables of a group put what is told about its fields into a mapping, over what is there. -/
theorem Gathered.nested (hw : WellNamed fields) (hdistinct : vars.Distinct)
    (hvars : ∀ e ∈ vars, (group ++ delimiter).toList <+: e.1.toList →
      ∃ f ∈ fields, e.1 = variableName group f)
    {value : SettingsField → Option Value} {under entries : Entries}
    (hunder : Gathered fields value under)
    (h : Settings.nested (innerValue origin group fields) (group ++ delimiter) vars under =
      .ok entries) :
    Gathered fields
      (fun f => ((vars.lookup? (variableName group f)).map f.said).or (value f)) entries := by
  -- the mapping grows from the front of the variables, so it holds what the earlier ones tell
  induction vars generalizing value under with
  | nil =>
      obtain rfl := Except.ok.inj h
      exact hunder
  | cons e vars ih =>
      obtain ⟨hhead, hrest⟩ := List.nodup_cons.mp hdistinct
      have hvars' := fun d hd => hvars d (List.mem_cons_of_mem e hd)
      rw [Settings.nested] at h
      by_cases hstart : (group ++ delimiter).toList <+: e.1.toList
      · obtain ⟨f, hf, hname⟩ := hvars e List.mem_cons_self hstart
        rw [hname, partsBehind?_variableName hw hf] at h
        obtain ⟨v, hv, h⟩ := (Outcome.bind_eq_ok_iff _ _ _).mp h
        obtain rfl := innerValue_eq_ok hw hf hv
        refine (ih hrest hvars' (hunder.insert hf _) h).congr fun g hg => ?_
        rw [Variables.lookup?_cons, hname]
        by_cases hfg : f.name = g.name
        · obtain rfl := hw.eq_of_name hf hg hfg
          have hnone : Variables.lookup? vars (variableName group f) = none := by
            refine (Variables.lookup?_eq_none_iff _ _).mpr fun d hd heq => hhead ?_
            exact List.mem_map.mpr ⟨d, hd, heq.trans hname.symm⟩
          simp [hnone]
        · have hne : variableName group f ≠ variableName group g :=
            fun heq => hfg (variableName_inj.mp heq)
          rw [if_neg hfg, if_neg hne]
      · rw [partsBehind?_eq_none hstart] at h
        refine (ih hrest hvars' hunder h).congr fun g hg => ?_
        have hne : e.1 ≠ variableName group g := fun heq =>
          hstart (heq ▸ prefix_variableName g)
        rw [Variables.lookup?_cons, if_neg hne]

theorem nested_of_readable (hw : WellNamed fields) (origin : SettingsOrigin)
    (hvars : ∀ e ∈ vars, (group ++ delimiter).toList <+: e.1.toList →
      ∃ f ∈ fields, e.1 = variableName group f ∧ f.Readable e.2) (under : Entries) :
    ∃ entries, nested (innerValue origin group fields) (group ++ delimiter) vars under =
      .ok entries := by
  induction vars generalizing under with
  | nil => exact ⟨under, rfl⟩
  | cons e vars ih =>
      have hvars' := fun d hd => hvars d (List.mem_cons_of_mem e hd)
      rw [nested]
      by_cases hstart : (group ++ delimiter).toList <+: e.1.toList
      · obtain ⟨f, hf, hname, hread⟩ := hvars e List.mem_cons_self hstart
        obtain ⟨v, hv⟩ := innerValue_of_readable hw hf origin group hread
        rw [hname, partsBehind?_variableName hw hf]
        obtain ⟨entries, hentries⟩ := ih hvars' (insertAt [f.name] v under)
        exact ⟨entries, (Outcome.bind_eq_ok_iff _ _ _).mpr ⟨v, hv, hentries⟩⟩
      · rw [partsBehind?_eq_none hstart]
        exact ih hvars' under

end Variables

/-- What an origin gives a whole group: nothing when nothing is told, else a mapping. -/
def Found (fields : List SettingsField) (value : SettingsField → Option Value)
    (found : Option Value) : Prop :=
  (found = none ∧ ∀ f ∈ fields, value f = none) ∨
    ∃ entries, found = some (.dict entries) ∧ Gathered fields value entries

/-- No variable stands for the whole group. -/
theorem groupFrom_eq (hn : env.NamesFields group fields) (origin : SettingsOrigin) :
    groupFrom origin (env.read origin) group fields = do
      let inner ← nested (innerValue origin group fields) (group ++ delimiter)
        (env.read origin) []
      return if inner.isEmpty then none else some (.dict (matchNames fields inner)) := by
  have hnone : Variables.get? (env.read origin) group = none := by
    rw [Variables.get?_eq, (Variables.lookup?_eq_none_iff _ _).mpr fun e he =>
      (hn origin e he).1]
    rfl
  rw [groupFrom, hnone]

theorem found_of_groupFrom (hw : WellNamed fields) (hn : env.NamesFields group fields)
    {origin : SettingsOrigin} {found : Option Value}
    (h : groupFrom origin (env.read origin) group fields = .ok found) :
    Found fields (env.told group origin) found := by
  rw [groupFrom_eq hn] at h
  obtain ⟨inner, hinner, h⟩ := (Outcome.bind_eq_ok_iff _ _ _).mp h
  obtain rfl := (Outcome.pure_eq_ok_iff _ _).mp h
  have hgathered : Gathered fields (env.told group origin) inner :=
    (Gathered.nested hw (env.distinct_read origin) (fun e he => (hn origin e he).2) Gathered.nil
      hinner).congr fun f _ => Option.or_none
  cases inner with
  | nil => exact Or.inl ⟨rfl, fun f hf => (hgathered.lookup f hf).symm⟩
  | cons e inner =>
      refine Or.inr ⟨_, rfl, ?_⟩
      rw [hgathered.matchNames_eq hw]
      exact hgathered

theorem groupFrom_of_readable (hw : WellNamed fields) (hn : env.NamesFields group fields)
    {origin : SettingsOrigin} (hread : ∀ f ∈ fields, env.ReadableAt group origin f) :
    ∃ found, groupFrom origin (env.read origin) group fields = .ok found := by
  rw [groupFrom_eq hn]
  obtain ⟨inner, hinner⟩ := nested_of_readable hw origin (fun e he hstart => by
    obtain ⟨f, hf, hname⟩ := (hn origin e he).2 hstart
    refine ⟨f, hf, hname, hread f hf e.2 ?_⟩
    rw [← hname]
    exact Variables.lookup?_of_mem (env.distinct_read origin) he) []
  exact ⟨_, (Outcome.bind_eq_ok_iff _ _ _).mpr ⟨inner, hinner, rfl⟩⟩

end Settings

end Typeahead
