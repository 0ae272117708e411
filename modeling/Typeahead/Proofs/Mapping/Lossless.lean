import Typeahead.Proofs.Mapping.Declared
import Typeahead.Proofs.Mapping.Stored

/-!
# Declarations are lossless

Of the forms that are declared under the same names the last one stays.  The forms of attributes
that are stored under different names have different names of their own: every attribute gets one
property, `Stored.property`, with a multi-field for each of its forms.
-/

namespace Typeahead

namespace Entries

/-- A new name goes to the end. -/
theorem insert_of_notMem {entries : Entries} {n : String} (value : Value)
    (h : .text n ∉ entries.map (·.1)) :
    insert entries (.text n) value = entries ++ [(.text n, value)] := by
  induction entries with
  | nil => rfl
  | cons e entries ih =>
      rw [List.map_cons, List.mem_cons, not_or] at h
      have hsame : e.1.same (.text n) = false := by
        rw [Bool.eq_false_iff, ne_eq, Value.same_text_right_iff]
        exact fun heq => h.1 heq.symm
      have hinsert :
          insert (e :: entries) (.text n) value = e :: insert entries (.text n) value := by
        simp [insert, hsame]
      rw [hinsert, ih h.2, List.cons_append]

end Entries

namespace SubField

/-- What a form is declared as under its attribute. -/
def entry (s : SubField) : Value × Value := (s.name, s.declaration)

end SubField

namespace Property

open SubField

/-- A form of an attribute without a property makes one. -/
theorem declare_of_notMem {ps : List Property} {s : SubField} {a : String}
    (ha : s.attr = .text a) (h : .text a ∉ ps.map (·.attr)) :
    declare ps s = ps ++ [⟨s.attr, Entries.insert [] s.name s.declaration⟩] := by
  induction ps with
  | nil => rfl
  | cons p ps ih =>
      rw [List.map_cons, List.mem_cons, not_or] at h
      rw [declare_cons_of_ne ha fun heq => h.1 heq.symm, ih h.2, List.cons_append]

/-- A form of the last attribute goes to its property. -/
theorem declare_last {ps : List Property} {p : Property} {s : SubField} {a : String}
    (ha : s.attr = .text a) (hp : p.attr = .text a) (h : .text a ∉ ps.map (·.attr)) :
    declare (ps ++ [p]) s = ps ++ [{ p with fields := p.fields.insert s.name s.declaration }] := by
  induction ps with
  | nil => exact declare_cons_of_eq ha hp
  | cons q ps ih =>
      rw [List.map_cons, List.mem_cons, not_or] at h
      rw [List.cons_append, declare_cons_of_ne ha fun heq => h.1 heq.symm, ih h.2,
        List.cons_append]

/-- Forms of the last attribute with new names are all declared, in their order. -/
theorem foldl_declare_last {fs : List SubField} {ps : List Property} {p : Property} {a : String}
    (hattr : ∀ s ∈ fs, s.attr = .text a) (hp : p.attr = .text a)
    (h : .text a ∉ ps.map (·.attr)) (hnamed : ∀ s ∈ fs, ∃ n, s.name = .text n)
    (hnew : (p.fields.map (·.1) ++ fs.map (·.name)).Nodup) :
    fs.foldl declare (ps ++ [p]) = ps ++ [{ p with fields := p.fields ++ fs.map entry }] := by
  induction fs generalizing p with
  | nil => simp
  | cons s fs ih =>
      obtain ⟨n, hn⟩ := hnamed s List.mem_cons_self
      have hname : .text n ∉ p.fields.map (·.1) := by
        intro hmem
        rw [List.map_cons, hn] at hnew
        exact List.disjoint_of_nodup_append hnew hmem List.mem_cons_self
      have hinsert : p.fields.insert s.name s.declaration = p.fields ++ [s.entry] := by
        rw [hn, Entries.insert_of_notMem _ hname, entry, hn]
      have hrest : ((p.fields ++ [s.entry]).map (·.1) ++ fs.map (·.name)).Nodup := by
        rw [List.map_append, List.append_assoc]
        exact hnew
      rw [List.foldl_cons, declare_last (hattr s List.mem_cons_self) hp h, hinsert,
        ih (p := { p with fields := p.fields ++ [s.entry] })
          (fun t ht => hattr t (List.mem_cons_of_mem _ ht)) hp
          (fun t ht => hnamed t (List.mem_cons_of_mem _ ht)) hrest, List.map_cons,
        List.append_assoc]
      rfl

end Property

namespace Stored

open Property

/-- The property of a stored attribute: a multi-field for each of its forms, in order. -/
def property (a : Stored) : Property :=
  ⟨.text a.name, (SubField.forms a.mode a.name).map SubField.entry⟩

theorem attr_of_mem_forms {a : Stored} {s : SubField} (h : s ∈ SubField.forms a.mode a.name) :
    s.attr = .text a.name := by
  rw [forms_eq] at h
  obtain ⟨key, hkey, rfl⟩ := List.mem_map.mp h
  obtain ⟨kind, _, rfl⟩ := List.mem_map.mp hkey
  exact FormKey.attr_form _

theorem named_of_mem_forms {a : Stored} {s : SubField} (h : s ∈ SubField.forms a.mode a.name) :
    ∃ n, s.name = .text n := by
  rw [forms_eq] at h
  obtain ⟨key, _, rfl⟩ := List.mem_map.mp h
  exact ⟨key.name, key.name_form⟩

theorem named_of_mem_keys {stored : List Stored} :
    ∀ s ∈ (keys stored).map FormKey.form, s.Named := by
  intro s hs
  obtain ⟨key, _, rfl⟩ := List.mem_map.mp hs
  exact ⟨key.stored.name, key.name, key.attr_form, key.name_form⟩

/-- The forms of one attribute have different names. -/
theorem nodup_names (a : Stored) : ((SubField.forms a.mode a.name).map (·.name)).Nodup := by
  rw [forms_eq, List.map_map, List.map_map]
  refine a.nodup_kinds.map fun kind other h => ?_
  have hname : Value.text (FormKey.mk a kind).name = .text (FormKey.mk a other).name := by
    rw [← FormKey.name_form, ← FormKey.name_form]
    exact h
  exact SubField.nameOf_injective a.name (Value.text.inj hname)

/-- The forms of an attribute without a property make its property. -/
theorem foldl_declare_forms (a : Stored) {ps : List Property}
    (h : .text a.name ∉ ps.map (·.attr)) :
    (SubField.forms a.mode a.name).foldl declare ps = ps ++ [a.property] := by
  have hfirst : declare ps (.raw (.text a.name) (.text a.name)) =
      ps ++ [⟨.text a.name, [SubField.entry (.raw (.text a.name) (.text a.name))]⟩] :=
    declare_of_notMem rfl h
  rw [SubField.forms, List.foldl_cons, hfirst]
  refine foldl_declare_last (fun s hs => ?_) rfl h (fun s hs => ?_) a.nodup_names
  · exact attr_of_mem_forms (List.mem_cons_of_mem _ hs)
  · exact named_of_mem_forms (List.mem_cons_of_mem _ hs)

/-- The forms of attributes of different names make a property for each of them. -/
theorem foldl_declare_stored {stored : List Stored} (hdistinct : (stored.map Stored.name).Nodup)
    {ps : List Property} (h : ∀ a ∈ stored, .text a.name ∉ ps.map (·.attr)) :
    (stored.flatMap fun a => SubField.forms a.mode a.name).foldl declare ps =
      ps ++ stored.map property := by
  induction stored generalizing ps with
  | nil => simp
  | cons a stored ih =>
      obtain ⟨hname, hrest⟩ := List.nodup_cons.mp hdistinct
      have hothers : ∀ b ∈ stored, .text b.name ∉ (ps ++ [a.property]).map (·.attr) := by
        intro b hb hmem
        rw [List.map_append, List.mem_append] at hmem
        rcases hmem with hmem | hmem
        · exact h b (List.mem_cons_of_mem _ hb) hmem
        · have heq : b.name = a.name := Value.text.inj (List.mem_singleton.mp hmem)
          exact hname (heq ▸ List.mem_map_of_mem hb)
      rw [List.flatMap_cons, List.foldl_append, foldl_declare_forms a (h a List.mem_cons_self),
        ih hrest hothers, List.map_cons, List.append_assoc, List.singleton_append]

section Distinct

variable {stored : List Stored} (hdistinct : (stored.map Stored.name).Nodup)

include hdistinct

theorem foldl_declare_keys :
    ((keys stored).map FormKey.form).foldl declare [] = stored.map property := by
  rw [← flatMap_forms, foldl_declare_stored hdistinct fun _ _ => List.not_mem_nil, List.nil_append]

/-- Every form is found under its own names. -/
theorem field?_form {key : FormKey} (hkey : key ∈ keys stored) :
    field? (stored.map property) key.form.attr key.form.name = some key.form.declaration := by
  have hgoes : key.form.GoesBy key.stored.name key.name := ⟨key.attr_form, key.name_form⟩
  rw [← foldl_declare_keys hdistinct, key.attr_form, key.name_form, field?_foldl named_of_mem_keys]
  have hfound : key.form ∈
      ((keys stored).map FormKey.form).filter (SubField.GoesBy key.stored.name key.name ·) :=
    List.mem_filter.mpr ⟨List.mem_map_of_mem hkey, decide_eq_true hgoes⟩
  obtain ⟨s, hs⟩ :=
    Option.isSome_iff_exists.mp (List.getLast?_isSome.mpr (List.ne_nil_of_mem hfound))
  obtain ⟨hmem, hsame⟩ := List.mem_filter.mp (List.mem_of_getLast? hs)
  obtain ⟨other, hother, rfl⟩ := List.mem_map.mp hmem
  obtain ⟨hattr, hname⟩ := of_decide_eq_true hsame
  rw [hs, eq_of_names_eq hdistinct hother hkey (hattr.trans hgoes.1.symm)
    (hname.trans hgoes.2.symm), Option.map_some]

end Distinct

end Stored

namespace FieldSpec

/-- Searchable attributes that are stored under different names have a property each, in order,
with a multi-field for each of their forms: no form takes the place of another one, and all
dotted paths are different.  Of any forms, the last one under some names is declared there. -/
theorem declarations_lossless {specs : List FieldSpec} {stored : List Stored}
    (h : Stores specs stored) (hdistinct : (stored.map Stored.name).Nodup) {fs : List SubField}
    (hnamed : ∀ s ∈ fs, s.Named) :
    (∃ forms paths, allSubFields specs = .ok forms ∧
      Property.ofSubFields forms = .ok (stored.map Stored.property) ∧
      (∀ a ∈ stored, (a.property.fields.map (·.1)).Nodup) ∧
      (∀ s ∈ forms, Property.field? (stored.map Stored.property) s.attr s.name =
        some s.declaration) ∧
      forms.mapM SubField.nestedPath = .ok paths ∧ paths.Nodup) ∧
    ∃ ps, Property.ofSubFields fs = .ok ps ∧ ∀ attr name : String,
      ((Property.field? ps (.text attr) (.text name)).isSome ↔ ∃ s ∈ fs, s.GoesBy attr name) ∧
      Property.field? ps (.text attr) (.text name) =
        (fs.filter (SubField.GoesBy attr name ·)).getLast?.map SubField.declaration := by
  constructor
  · refine ⟨_, (Stored.keys stored).map fun key => .text key.path, h.allSubFields_eq, ?_,
      fun a _ => ?_, fun s hs => ?_, ?_, ?_⟩
    · rw [Property.ofSubFields_eq Stored.named_of_mem_keys, Stored.foldl_declare_keys hdistinct]
    · rw [Stored.property, List.map_map]
      exact a.nodup_names
    · obtain ⟨key, hkey, rfl⟩ := List.mem_map.mp hs
      exact Stored.field?_form hdistinct hkey
    · refine (Outcome.mapM_eq_ok_iff _ _ _).mpr ?_
      rw [List.forall₂_map_left_iff, List.forall₂_map_right_iff, List.forall₂_same]
      exact fun key _ => key.nestedPath_form
    · rw [← Function.comp_def, ← List.map_map]
      exact (Stored.nodup_path hdistinct).map fun _ _ => Value.text.inj
  · refine ⟨_, Property.ofSubFields_eq hnamed, fun attr name => ⟨?_, ?_⟩⟩
    · exact Property.isSome_field?_foldl_iff hnamed attr name
    · exact Property.field?_foldl hnamed attr name

/-- The flat name of a name is declared twice, the second time with another weight. -/
def nameForms : List SubField :=
  [.form .full "name" .base, .raw (.text "name") (.text "name"), .form .word "name" .base]

/-- The declarations of books, and those of a name that come twice. -/
theorem declarations_lossless_books :
    Stores bookSpecs bookAttributes ∧ (bookAttributes.map Stored.name).Nodup ∧
      (∀ s ∈ nameForms, s.Named) ∧
      (∃ forms, allSubFields bookSpecs = .ok forms ∧
        Property.ofSubFields forms = .ok (bookAttributes.map Stored.property)) ∧
      ∃ ps, Property.ofSubFields nameForms = .ok ps ∧
        Property.field? ps (.text "name") (.text "ac_name") =
          some (SubField.form .word "name" .base).declaration := by
  have hdistinct : (bookAttributes.map Stored.name).Nodup := by decide
  have hnamed : ∀ s ∈ nameForms, s.Named := by
    simp only [nameForms, List.forall_mem_cons]
    exact ⟨⟨_, _, rfl, rfl⟩, ⟨_, _, rfl, rfl⟩, ⟨_, _, rfl, rfl⟩, by simp⟩
  obtain ⟨⟨forms, _, hforms, hproperties, _⟩, ps, hps, hfields⟩ :=
    declarations_lossless stores_books hdistinct hnamed
  refine ⟨stores_books, hdistinct, hnamed, ⟨forms, hforms, hproperties⟩, ps, hps, ?_⟩
  exact (hfields "name" "ac_name").2

end FieldSpec

end Typeahead
