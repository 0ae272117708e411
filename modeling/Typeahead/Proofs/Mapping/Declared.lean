import Mathlib.Data.List.Induction
import Mathlib.Data.List.Nodup
import Typeahead.Mapping.IndexBody
import Typeahead.Proofs.Index.Contents

/-!
# What an index body declares

An index body is read in the form that is sent: its properties, the multi-fields of an
attribute and the analysis settings are what stands under their names.  A multi-field is
found under the names of a form exactly when the form was declared, and then it is the last
form of those names.
-/

namespace Typeahead

namespace Value

theorem same_text_right_iff (v : Value) (s : String) : v.same (.text s) = true ↔ v = .text s := by
  cases v with
  | text r => simp only [same, beq_iff_eq, text.injEq]
  | _ => simp [same]

/-- Names can be compared with any value, though values in general cannot. -/
instance (v : Value) (s : String) : Decidable (v = .text s) :=
  decidable_of_iff (v.same (.text s) = true) (same_text_right_iff v s)

instance (s : String) (vs : List Value) : Decidable (.text s ∈ vs) :=
  decidable_of_iff (∃ v ∈ vs, v = .text s) (by simp)

/-- The entries of a mapping; nothing else has any. -/
def entries : Value → Entries
  | .dict entries => entries
  | _ => []

/-- What stands under a name, null when there is nothing. -/
def under (v : Value) (name : String) : Value := v.entries.get name

end Value

namespace Entries

theorem lookup_cons_text (e : Value × Value) (entries : Entries) (name : String) :
    lookup (e :: entries) (.text name) =
      if e.1 = .text name then some e.2 else lookup entries (.text name) := by
  have hiff := Value.same_text_right_iff e.1 name
  cases h : e.1.same (.text name) with
  | true =>
      rw [if_pos (hiff.mp h), lookup, List.find?_cons, h]
      rfl
  | false =>
      rw [if_neg fun heq => by simp [hiff.mpr heq] at h, lookup, List.find?_cons, h, lookup]

theorem lookup_insert (entries : Entries) (n m : String) (value : Value) :
    lookup (insert entries (.text n) value) (.text m) =
      if n = m then some value else lookup entries (.text m) := by
  induction entries with
  | nil =>
      rw [insert, lookup_cons_text]
      simp only [Value.text.injEq]
  | cons e entries ih =>
      by_cases he : e.1 = .text n
      · have hsame : e.1.same (.text n) = true := (Value.same_text_right_iff _ _).mpr he
        have hinsert : insert (e :: entries) (.text n) value = (e.1, value) :: entries := by
          simp [insert, hsame]
        rw [hinsert, lookup_cons_text, lookup_cons_text]
        simp only [he, Value.text.injEq]
        split
        · rfl
        · rfl
      · have hsame : e.1.same (.text n) = false := by
          rw [Bool.eq_false_iff, ne_eq, Value.same_text_right_iff]
          exact he
        have hinsert : insert (e :: entries) (.text n) value =
            e :: insert entries (.text n) value := by simp [insert, hsame]
        rw [hinsert, lookup_cons_text, lookup_cons_text, ih]
        by_cases hm : e.1 = .text m
        · have hnm : ¬ n = m := fun heq => he (heq ▸ hm)
          rw [if_pos hm, if_pos hm, if_neg hnm]
        · rw [if_neg hm, if_neg hm]

/-- Only names are found among named entries. -/
theorem text_of_lookup {entries : Entries} {key value : Value} (hnamed : entries.Named)
    (h : lookup entries key = some value) : ∃ n, key = .text n := by
  obtain ⟨e, hfind, _⟩ := Option.map_eq_some_iff.mp h
  obtain ⟨n, hn⟩ := hnamed e (List.mem_of_find?_eq_some hfind)
  have hsame := List.find?_some hfind
  rw [hn] at hsame
  exact ⟨n, (Value.same_text_iff n key).mp hsame⟩

end Entries

namespace SubField

/-- An attribute and a form of it that both have a name. -/
def Named (s : SubField) : Prop := ∃ a n, s.attr = .text a ∧ s.name = .text n

/-- Whether a form is declared under an attribute and a name. -/
def GoesBy (attr name : String) (s : SubField) : Prop := s.attr = .text attr ∧ s.name = .text name

instance (attr name : String) (s : SubField) : Decidable (s.GoesBy attr name) :=
  inferInstanceAs (Decidable (_ ∧ _))

end SubField

namespace Property

/-- The form that properties have under an attribute and a name. -/
def field? (ps : List Property) (attr name : Value) : Option Value :=
  (ps.find? fun p => p.attr.same attr).bind fun p => p.fields.lookup name

/-- All attributes and all forms have names. -/
def Worded (ps : List Property) : Prop := ∀ p ∈ ps, (∃ a, p.attr = .text a) ∧ p.fields.Named

theorem field?_cons (p : Property) (ps : List Property) (a : String) (name : Value) :
    field? (p :: ps) (.text a) name =
      if p.attr = .text a then p.fields.lookup name else field? ps (.text a) name := by
  have hiff := Value.same_text_right_iff p.attr a
  cases h : p.attr.same (.text a) with
  | true =>
      rw [if_pos (hiff.mp h), field?, List.find?_cons, h]
      rfl
  | false =>
      rw [if_neg fun heq => by simp [hiff.mpr heq] at h, field?, List.find?_cons, h, field?]

theorem declare_cons_of_eq {p : Property} {ps : List Property} {s : SubField} {a : String}
    (ha : s.attr = .text a) (h : p.attr = .text a) :
    declare (p :: ps) s = { p with fields := p.fields.insert s.name s.declaration } :: ps := by
  have hsame : p.attr.same s.attr = true := by
    rw [ha]
    exact (Value.same_text_right_iff _ _).mpr h
  simp [declare, hsame]

theorem declare_cons_of_ne {p : Property} {ps : List Property} {s : SubField} {a : String}
    (ha : s.attr = .text a) (h : p.attr ≠ .text a) : declare (p :: ps) s = p :: declare ps s := by
  have hsame : p.attr.same s.attr = false := by
    rw [ha, Bool.eq_false_iff, ne_eq, Value.same_text_right_iff]
    exact h
  simp [declare, hsame]

/-- A declaration changes the form of its own names and no other. -/
theorem field?_declare {s : SubField} {a n : String} (ha : s.attr = .text a)
    (hn : s.name = .text n) (ps : List Property) (b m : String) :
    field? (declare ps s) (.text b) (.text m) =
      if a = b ∧ n = m then some s.declaration else field? ps (.text b) (.text m) := by
  induction ps with
  | nil =>
      have hnil : Entries.lookup (Entries.insert [] s.name s.declaration) (.text m) =
          if n = m then some s.declaration else none := by
        rw [hn, Entries.lookup_insert]
        rfl
      rw [declare, field?_cons]
      simp only [ha, Value.text.injEq, hnil]
      by_cases hab : a = b
      · simp [hab, field?]
      · simp [hab, field?]
  | cons p ps ih =>
      by_cases hp : p.attr = .text a
      · rw [declare_cons_of_eq ha hp, field?_cons, field?_cons, hn, Entries.lookup_insert]
        by_cases hab : a = b
        · have hpb : p.attr = .text b := by rw [hp, hab]
          simp [hpb, hab]
        · have hpb : ¬ p.attr = .text b := by
            rw [hp, Value.text.injEq]
            exact hab
          simp [hpb, hab]
      · rw [declare_cons_of_ne ha hp, field?_cons, field?_cons, ih]
        by_cases hpb : p.attr = .text b
        · have hab : ¬ a = b := fun heq => hp (heq ▸ hpb)
          rw [if_pos hpb, if_pos hpb, if_neg fun h => hab h.1]
        · rw [if_neg hpb, if_neg hpb]

theorem attrs_declare {s : SubField} {a : String} (ha : s.attr = .text a) (ps : List Property) :
    (declare ps s).map (·.attr) =
      if .text a ∈ ps.map (·.attr) then ps.map (·.attr) else ps.map (·.attr) ++ [.text a] := by
  induction ps with
  | nil => simp [declare, ha]
  | cons p ps ih =>
      by_cases hp : p.attr = .text a
      · rw [declare_cons_of_eq ha hp]
        simp [hp]
      · have hne : ¬ Value.text a = p.attr := fun heq => hp heq.symm
        rw [declare_cons_of_ne ha hp, List.map_cons, ih, List.map_cons]
        by_cases hmem : .text a ∈ ps.map (·.attr)
        · rw [if_pos hmem, if_pos (List.mem_cons_of_mem _ hmem)]
        · rw [if_neg hmem, if_neg (by simp only [List.mem_cons, not_or]; exact ⟨hne, hmem⟩),
            List.cons_append]

theorem worded_declare {s : SubField} (hs : s.Named) {ps : List Property} (h : Worded ps) :
    Worded (declare ps s) := by
  obtain ⟨a, n, ha, hn⟩ := hs
  induction ps with
  | nil =>
      intro p hp
      rw [List.mem_singleton.mp hp]
      refine ⟨⟨a, ha⟩, ?_⟩
      rw [hn]
      exact Entries.named_insert (fun e he => absurd he List.not_mem_nil) n _
  | cons p ps ih =>
      have hhead := h p List.mem_cons_self
      have htail : Worded ps := fun q hq => h q (List.mem_cons_of_mem _ hq)
      intro q hq
      by_cases hp : p.attr = .text a
      · rw [declare_cons_of_eq ha hp] at hq
        rcases List.mem_cons.mp hq with rfl | hq
        · refine ⟨hhead.1, ?_⟩
          rw [hn]
          exact Entries.named_insert hhead.2 n _
        · exact htail q hq
      · rw [declare_cons_of_ne ha hp] at hq
        rcases List.mem_cons.mp hq with rfl | hq
        · exact hhead
        · exact ih htail q hq

variable {fs : List SubField} (hfs : ∀ s ∈ fs, s.Named)

include hfs

theorem worded_foldl {ps : List Property} (h : Worded ps) : Worded (fs.foldl declare ps) := by
  induction fs generalizing ps with
  | nil => exact h
  | cons s fs ih =>
      rw [List.foldl_cons]
      exact ih (fun t ht => hfs t (List.mem_cons_of_mem _ ht))
        (worded_declare (hfs s List.mem_cons_self) h)

/-- Of the forms of some names the last one is found under them. -/
theorem field?_foldl (b m : String) :
    field? (fs.foldl declare []) (.text b) (.text m) =
      (fs.filter (SubField.GoesBy b m ·)).getLast?.map SubField.declaration := by
  induction fs using List.reverseRecOn with
  | nil => rfl
  | append_singleton fs s ih =>
      obtain ⟨a, n, ha, hn⟩ := hfs s (List.mem_append_right _ List.mem_cons_self)
      rw [List.foldl_append, List.foldl_cons, List.foldl_nil, field?_declare ha hn,
        ih fun t ht => hfs t (List.mem_append_left _ ht), List.filter_append]
      by_cases hnames : a = b ∧ n = m
      · have hgoes : s.GoesBy b m := ⟨by rw [ha, hnames.1], by rw [hn, hnames.2]⟩
        rw [if_pos hnames, List.filter_singleton, decide_eq_true hgoes]
        simp
      · have hgoes : ¬ s.GoesBy b m := by
          rw [SubField.GoesBy, ha, hn, Value.text.injEq, Value.text.injEq]
          exact hnames
        rw [if_neg hnames, List.filter_singleton, decide_eq_false hgoes]
        simp

theorem isSome_field?_foldl_iff (b m : String) :
    (field? (fs.foldl declare []) (.text b) (.text m)).isSome ↔ ∃ s ∈ fs, s.GoesBy b m := by
  rw [field?_foldl hfs, Option.isSome_map, List.getLast?_isSome, ne_eq, List.filter_eq_nil_iff]
  simp

/-- What is found under some names is the declaration of a form of them. -/
theorem exists_of_field?_foldl {b m : String} {config : Value}
    (h : field? (fs.foldl declare []) (.text b) (.text m) = some config) :
    ∃ s ∈ fs, s.GoesBy b m ∧ config = s.declaration := by
  rw [field?_foldl hfs] at h
  obtain ⟨s, hlast, rfl⟩ := Option.map_eq_some_iff.mp h
  obtain ⟨hs, hgoes⟩ := List.mem_filter.mp (List.mem_of_getLast? hlast)
  exact ⟨s, hs, of_decide_eq_true hgoes, rfl⟩

/-- Forms whose attributes and names are texts can be declared. -/
theorem ofSubFields_eq : ofSubFields fs = .ok (fs.foldl declare []) := by
  have hkeys : fs.all (fun s => s.attr.isKey && s.name.isKey) = true := by
    refine List.all_eq_true.mpr fun s hs => ?_
    obtain ⟨a, n, ha, hn⟩ := hfs s hs
    rw [ha, hn]
    rfl
  rw [ofSubFields, if_pos hkeys]

theorem mem_attrs_foldl (ps : List Property) (v : Value) :
    v ∈ (fs.foldl declare ps).map (·.attr) ↔ v ∈ ps.map (·.attr) ∨ ∃ s ∈ fs, s.attr = v := by
  induction fs generalizing ps with
  | nil => simp
  | cons s fs ih =>
      obtain ⟨a, n, ha, hn⟩ := hfs s List.mem_cons_self
      have hdeclare : v ∈ (declare ps s).map (·.attr) ↔ v ∈ ps.map (·.attr) ∨ s.attr = v := by
        rw [attrs_declare ha, ha]
        split
        · next hmem =>
            constructor
            · exact Or.inl
            · rintro (h | rfl)
              · exact h
              · exact hmem
        · rw [List.mem_append, List.mem_singleton, eq_comm]
      rw [List.foldl_cons, ih (fun t ht => hfs t (List.mem_cons_of_mem _ ht)), hdeclare, or_assoc,
        List.exists_mem_cons_iff]

theorem nodup_attrs_foldl {ps : List Property} (h : (ps.map (·.attr)).Nodup) :
    ((fs.foldl declare ps).map (·.attr)).Nodup := by
  induction fs generalizing ps with
  | nil => exact h
  | cons s fs ih =>
      obtain ⟨a, n, ha, hn⟩ := hfs s List.mem_cons_self
      rw [List.foldl_cons]
      refine ih (fun t ht => hfs t (List.mem_cons_of_mem _ ht)) ?_
      rw [attrs_declare ha]
      split
      · exact h
      · next hmem =>
          rw [← List.concat_eq_append]
          exact (List.nodup_concat _ _).mpr ⟨hmem, h⟩

end Property

namespace IndexBody

/-- The properties of an index body. -/
def propertiesOf (body : Value) : Entries := ((body.under "mappings").under "properties").entries

/-- What an index body declares as a multi-field of an attribute. -/
def multiField? (body attr name : Value) : Option Value :=
  ((propertiesOf body).lookup attr).bind fun p => (p.under "fields").entries.lookup name

/-- The analyzers, the tokenizers or the filters that an index body defines. -/
def definitionsOf (body : Value) (kind : String) : Entries :=
  (((body.under "settings").under "analysis").under kind).entries

theorem propertiesOf_toValue (b : IndexBody) :
    propertiesOf b.toValue = Property.entries b.properties := rfl

theorem attrs_of_toValue (b : IndexBody) :
    (propertiesOf b.toValue).map (·.1) = b.properties.map (·.attr) := by
  rw [propertiesOf_toValue, Property.entries, List.map_map]
  rfl

theorem multiField?_toValue (b : IndexBody) (attr name : Value) :
    multiField? b.toValue attr name = Property.field? b.properties attr name := by
  rw [multiField?, propertiesOf_toValue, Property.entries, Property.field?, Entries.lookup,
    List.find?_map]
  cases hfind : b.properties.find? ((fun e => e.1.same attr) ∘ fun p => (p.attr, p.toValue)) with
  | none =>
      have hnone : b.properties.find? (fun p => p.attr.same attr) = none := hfind
      rw [hnone]
      rfl
  | some p =>
      have hsome : b.properties.find? (fun p => p.attr.same attr) = some p := hfind
      rw [hsome]
      rfl

/-- A multi-field of properties with names is found under names only. -/
theorem texts_of_field? {ps : List Property} {attr name config : Value}
    (hps : Property.Worded ps) (h : Property.field? ps attr name = some config) :
    ∃ a n, attr = .text a ∧ name = .text n := by
  obtain ⟨p, hfind, hlookup⟩ := Option.bind_eq_some_iff.mp h
  obtain ⟨⟨a, ha⟩, hfields⟩ := hps p (List.mem_of_find?_eq_some hfind)
  have hsame := List.find?_some hfind
  rw [ha] at hsame
  obtain ⟨n, hn⟩ := Entries.text_of_lookup hfields hlookup
  exact ⟨a, n, (Value.same_text_iff a attr).mp hsame, hn⟩

end IndexBody

end Typeahead
