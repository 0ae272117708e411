import Mathlib.Data.List.Pairwise
import Typeahead.Proofs.Mapping.Stored

/-!
# Paths of forms

A raw form is searched by its attribute, an analyzed form by its dotted path and by its flat
name.  Two forms share a path exactly when the attribute of one of them is spelled after that of
the other one, `Stored.Imitates`; otherwise every path leads to one form.
-/

namespace Typeahead

namespace Tag

variable {tag other : Tag} {name name' : String}

theorem flatName_cancel (h : tag.flatName name = tag.flatName name') : name = name' :=
  (String.append_right_inj _).mp h

/-- Behind the start of all flat names comes that of the tag. -/
theorem flatName_of_ne_base (h : tag ≠ .base) (name : String) :
    tag.flatName name = Tag.base.flatName (tag.name ++ "_" ++ name) := by
  refine String.toList_inj.mp ?_
  rw [toList_flatName, toList_flatName, String.toList_append, String.toList_append]
  cases tag with
  | base => exact absurd rfl h
  | word => rfl
  | full => rfl

/-- Flat names for two tags are equal when one attribute begins with the name of the other tag. -/
theorem flatName_eq_cases (h : tag.flatName name = other.flatName name') :
    tag = other ∧ name = name' ∨
      other ≠ .base ∧ name = other.name ++ "_" ++ name' ∨
      tag ≠ .base ∧ name' = tag.name ++ "_" ++ name := by
  by_cases htag : tag = .base
  · by_cases hother : other = .base
    · subst htag hother
      exact Or.inl ⟨rfl, flatName_cancel h⟩
    · subst htag
      rw [flatName_of_ne_base hother] at h
      exact Or.inr (Or.inl ⟨hother, flatName_cancel h⟩)
  · by_cases hother : other = .base
    · subst hother
      rw [flatName_of_ne_base htag] at h
      exact Or.inr (Or.inr ⟨htag, (flatName_cancel h).symm⟩)
    · refine Or.inl ?_
      by_cases hsame : tag = other
      · subst hsame
        exact ⟨rfl, flatName_cancel h⟩
      · rw [flatName_of_ne_base htag, flatName_of_ne_base hother] at h
        have hlist := congrArg String.toList (flatName_cancel h)
        simp only [String.toList_append] at hlist
        -- the two tags that are left begin with different letters
        cases tag with
        | base => exact absurd rfl htag
        | word =>
            cases other with
            | base => exact absurd rfl hother
            | word => exact absurd rfl hsame
            | full => exact absurd (List.cons.inj hlist).1 (by decide)
        | full =>
            cases other with
            | base => exact absurd rfl hother
            | word => exact absurd (List.cons.inj hlist).1 (by decide)
            | full => exact absurd rfl hsame

end Tag

namespace SubField

/-- Whether a search addresses a form by a path. -/
def SearchedBy (s : SubField) (path : Value) : Prop :=
  ∃ paths, s.searchPaths = .ok paths ∧ path ∈ paths

end SubField

namespace FormKey

open SubField

/-- The paths that a form is searched by. -/
def paths : FormKey → List String
  | ⟨a, none⟩ => [a.name]
  | ⟨a, some tag⟩ => [dotted a.name (tag.flatName a.name), tag.flatName a.name]

theorem searchPaths_form (key : FormKey) : key.form.searchPaths = .ok (key.paths.map .text) := by
  obtain ⟨a, _ | tag⟩ := key
  · rfl
  · rfl

theorem searchedBy_form_iff (key : FormKey) (path : String) :
    key.form.SearchedBy (.text path) ↔ path ∈ key.paths := by
  rw [SearchedBy, searchPaths_form]
  simp

theorem nodup_paths (key : FormKey) : key.paths.Nodup := by
  obtain ⟨a, _ | tag⟩ := key
  · exact List.nodup_singleton _
  · refine List.nodup_cons.mpr ⟨fun hmem => ?_, List.nodup_singleton _⟩
    have hlength := congrArg List.length (congrArg String.toList (List.mem_singleton.mp hmem))
    rw [toList_dotted, List.length_append, List.length_cons] at hlength
    omega

/-- The forms of a list that are analyzed, or those that are raw. -/
theorem filter_form (p : Bool → Bool) (keys : List FormKey) :
    (keys.map form).filter (fun s => p s.isRaw) =
      (keys.filter fun key => p key.kind.isNone).map form := by
  rw [List.filter_map]
  congr 2
  funext key
  rw [Function.comp_apply, isRaw_form]

theorem mapM_searchPaths (keys : List FormKey) :
    (keys.map form).mapM SubField.searchPaths =
      .ok (keys.map fun key => key.paths.map Value.text) := by
  refine (Outcome.mapM_eq_ok_iff _ _ _).mpr ?_
  rw [List.forall₂_map_left_iff, List.forall₂_map_right_iff, List.forall₂_same]
  exact fun key _ => searchPaths_form key

/-- Raw forms are searched by their attributes. -/
theorem attrs_raw (keys : List FormKey) :
    ((keys.filter fun key => key.kind.isNone).map form).map (·.attr) =
      ((keys.filter fun key => key.kind.isNone).flatMap paths).map Value.text := by
  induction keys with
  | nil => rfl
  | cons key keys ih =>
      obtain ⟨a, _ | tag⟩ := key
      · rw [List.filter_cons_of_pos rfl, List.map_cons, List.map_cons, ih, List.flatMap_cons,
          List.map_append]
        rfl
      · rw [List.filter_cons_of_neg (by simp), ih]

/-- The paths of forms as a search lists them: those of the analyzed forms come first. -/
def searched (keys : List FormKey) : List String :=
  (keys.filter fun key => !key.kind.isNone).flatMap paths ++
    (keys.filter fun key => key.kind.isNone).flatMap paths

theorem searchFields_forms (keys : List FormKey) :
    SubField.searchFields (keys.map form) = .ok ((searched keys).map .text) := by
  have hraw : (keys.map form).filter SubField.isRaw = (keys.filter _).map form :=
    filter_form id keys
  rw [SubField.searchFields, filter_form not, mapM_searchPaths, hraw, searched, List.map_append]
  refine (Outcome.pure_eq_ok_iff _ _).mpr (congrArg₂ (· ++ ·) ?_ (attrs_raw keys))
  rw [List.map_flatMap]
  rfl

theorem searched_perm (keys : List FormKey) : (searched keys).Perm (keys.flatMap paths) := by
  rw [searched, ← List.flatMap_append]
  refine List.Perm.flatMap_right paths ?_
  exact List.perm_append_comm.trans (List.filter_append_perm (fun key => key.kind.isNone) keys)

theorem mem_searched {keys : List FormKey} {path : String} :
    path ∈ searched keys ↔ ∃ key ∈ keys, path ∈ key.paths := by
  rw [(searched_perm keys).mem_iff, List.mem_flatMap]

/-- The paths are different exactly when no two forms share one. -/
theorem nodup_searched_iff {keys : List FormKey} (h : keys.Nodup) :
    (searched keys).Nodup ↔
      ∀ key ∈ keys, ∀ other ∈ keys, key ≠ other → key.paths.Disjoint other.paths := by
  rw [(searched_perm keys).nodup_iff, List.nodup_flatMap,
    and_iff_right fun key _ => nodup_paths key]
  constructor
  · intro hpairwise key hkey other hother hne
    have hsymm : Std.Symm (Function.onFun List.Disjoint paths) :=
      ⟨fun _ _ hshare _ hright hleft => hshare hleft hright⟩
    exact hpairwise.forall hkey hother hne
  · exact h.pairwise_of_forall_ne

end FormKey

namespace Stored

open SubField FormKey

/-- Whether the name of an attribute is spelled after that of another one. -/
inductive Imitates (a b : Stored) : Prop
  /-- It is a flat name of the other one. -/
  | flat {tag : Tag} (htag : tag ∈ b.mode.tags) (h : a.name = tag.flatName b.name)
  /-- It is a dotted path of the other one. -/
  | path {tag : Tag} (htag : tag ∈ b.mode.tags) (h : a.name = dotted b.name (tag.flatName b.name))
  /-- It is a flat name of the other one without the start that all flat names have. -/
  | tail {tag : Tag} (htag : tag ∈ b.mode.tags) (hne : tag ≠ .base)
      (h : a.name = tag.name ++ "_" ++ b.name)
  /-- The other one is spelled like a flat name, and this one is a dotted path of it without the
  start of the flat name. -/
  | behind {tag other : Tag} {rest : String} (htag : tag ∈ a.mode.tags)
      (hother : other ∈ b.mode.tags) (hb : b.name = tag.flatName rest)
      (h : a.name = dotted rest (other.flatName b.name))

theorem mem_kinds_some {a : Stored} {tag : Tag} : some tag ∈ a.kinds ↔ tag ∈ a.mode.tags := by
  simp [kinds]

theorem base_mem_tags (mode : Mode) : .base ∈ mode.tags := by
  cases mode with
  | _ => decide

theorem flatName_dotted (tag : Tag) (rest path : String) :
    tag.flatName (dotted rest path) = dotted (tag.flatName rest) path := by
  simp only [Tag.flatName, dotted, String.append_assoc]

/-- A flat name that is the dotted path of another attribute begins with this attribute. -/
theorem exists_rest_of_flatName_eq {tag : Tag} {name attr path : String}
    (h : tag.flatName name = dotted attr path) :
    ∃ rest, attr = tag.flatName rest ∧ name = dotted rest path := by
  have hlist := congrArg String.toList h
  rw [toList_dotted, ← nameOf, toList_nameOf] at hlist
  obtain ⟨rest, hattr, hname⟩ := split_of_dot (dot_notMem_leadOf (some tag)) hlist
  refine ⟨String.ofList rest, String.toList_inj.mp ?_, String.toList_inj.mp ?_⟩
  · rw [hattr, ← nameOf, toList_nameOf, String.toList_ofList]
  · rw [hname, toList_dotted, String.toList_ofList]

/-- Two analyzed forms share a path only if they are the same or one attribute imitates the other
one. -/
theorem imitates_of_analyzed {a b : Stored} {tag other : Tag} {path : String}
    (hname : a.name = b.name → a = b) (htag : tag ∈ a.mode.tags) (hother : other ∈ b.mode.tags)
    (ha : path ∈ paths ⟨a, some tag⟩) (hb : path ∈ paths ⟨b, some other⟩) :
    FormKey.mk a (some tag) = ⟨b, some other⟩ ∨ a.Imitates b ∨ b.Imitates a := by
  have hsame (hnames : a.name = b.name) (htags : tag = other) :
      FormKey.mk a (some tag) = ⟨b, some other⟩ := by rw [hname hnames, htags]
  rcases List.mem_pair.mp ha with rfl | rfl
  · rcases List.mem_pair.mp hb with h | h
    · obtain ⟨hnames, hkinds⟩ := @dotted_injective _ _ (some tag) (some other) h
      exact Or.inl (hsame hnames (Option.some.inj hkinds))
    · obtain ⟨rest, hrest, hb⟩ := exists_rest_of_flatName_eq h.symm
      exact Or.inr (Or.inr (.behind hother htag hrest hb))
  · rcases List.mem_pair.mp hb with h | h
    · obtain ⟨rest, hrest, ha⟩ := exists_rest_of_flatName_eq h
      exact Or.inr (Or.inl (.behind htag hother hrest ha))
    · rcases Tag.flatName_eq_cases h with ⟨htags, hnames⟩ | ⟨hne, htail⟩ | ⟨hne, htail⟩
      · exact Or.inl (hsame hnames htags)
      · exact Or.inr (Or.inl (.tail hother hne htail))
      · exact Or.inr (Or.inr (.tail htag hne htail))

/-- A raw form shares a path with an analyzed one only if its attribute imitates the other one. -/
theorem imitates_of_raw {a b : Stored} {tag : Tag} (htag : tag ∈ b.mode.tags)
    (h : a.name ∈ paths ⟨b, some tag⟩) : a.Imitates b := by
  rcases List.mem_pair.mp h with h | h
  · exact .path htag h
  · exact .flat htag h

theorem imitates_of_mem_paths {a b : Stored} {kind other : Option Tag} {path : String}
    (hname : a.name = b.name → a = b) (hkind : kind ∈ a.kinds) (hother : other ∈ b.kinds)
    (ha : path ∈ paths ⟨a, kind⟩) (hb : path ∈ paths ⟨b, other⟩) :
    FormKey.mk a kind = ⟨b, other⟩ ∨ a.Imitates b ∨ b.Imitates a := by
  cases kind with
  | none =>
      obtain rfl := List.mem_singleton.mp ha
      cases other with
      | none =>
          obtain rfl := hname (List.mem_singleton.mp hb)
          exact Or.inl rfl
      | some tag => exact Or.inr (Or.inl (imitates_of_raw (mem_kinds_some.mp hother) hb))
  | some tag =>
      cases other with
      | none =>
          obtain rfl := List.mem_singleton.mp hb
          exact Or.inr (Or.inr (imitates_of_raw (mem_kinds_some.mp hkind) ha))
      | some other =>
          exact imitates_of_analyzed hname (mem_kinds_some.mp hkind) (mem_kinds_some.mp hother)
            ha hb

/-- An attribute that imitates another one shares a path with it. -/
theorem Imitates.exists_shared {a b : Stored} (h : a.Imitates b) :
    ∃ kind ∈ a.kinds, ∃ other ∈ b.kinds, FormKey.mk a kind ≠ ⟨b, other⟩ ∧
      ∃ path, path ∈ paths ⟨a, kind⟩ ∧ path ∈ paths ⟨b, other⟩ := by
  cases h with
  | @flat tag htag h =>
      exact ⟨none, List.mem_cons_self, some tag, mem_kinds_some.mpr htag, by simp, a.name,
        List.mem_singleton_self _, List.mem_pair.mpr (Or.inr h)⟩
  | @path tag htag h =>
      exact ⟨none, List.mem_cons_self, some tag, mem_kinds_some.mpr htag, by simp, a.name,
        List.mem_singleton_self _, List.mem_pair.mpr (Or.inl h)⟩
  | @tail tag htag hne h =>
      refine ⟨some .base, mem_kinds_some.mpr (base_mem_tags _), some tag, mem_kinds_some.mpr htag,
        fun heq => ?_, Tag.base.flatName a.name, List.mem_pair.mpr (Or.inr rfl), ?_⟩
      · exact hne (Option.some.inj (FormKey.mk.inj heq).2).symm
      · rw [h, ← Tag.flatName_of_ne_base hne]
        exact List.mem_pair.mpr (Or.inr rfl)
  | @behind tag other rest htag hother hb h =>
      refine ⟨some tag, mem_kinds_some.mpr htag, some other, mem_kinds_some.mpr hother,
        fun heq => ?_, tag.flatName a.name, List.mem_pair.mpr (Or.inr rfl), ?_⟩
      · -- the imitating attribute is the longer one
        have hlength := congrArg (fun key => key.stored.name.toList.length) heq
        rw [h, toList_dotted, Tag.toList_flatName] at hlength
        simp only [List.length_append, List.length_cons] at hlength
        omega
      · rw [h, flatName_dotted, ← hb]
        exact List.mem_pair.mpr (Or.inl rfl)

variable {stored : List Stored} (hdistinct : (stored.map Stored.name).Nodup)

include hdistinct

/-- Different forms share no path exactly when no attribute imitates another one. -/
theorem disjoint_paths_iff :
    (∀ key ∈ keys stored, ∀ other ∈ keys stored, key ≠ other →
        key.paths.Disjoint other.paths) ↔ ∀ a ∈ stored, ∀ b ∈ stored, ¬ a.Imitates b := by
  constructor
  · intro h a ha b hb himitates
    obtain ⟨kind, hkind, other, hother, hne, path, hpath, hpath'⟩ := himitates.exists_shared
    exact h ⟨a, kind⟩ (mem_keys.mpr ⟨ha, hkind⟩) ⟨b, other⟩ (mem_keys.mpr ⟨hb, hother⟩) hne
      hpath hpath'
  · rintro h ⟨a, kind⟩ hkey ⟨b, other⟩ hother hne path hpath hpath'
    obtain ⟨ha, hkind⟩ := mem_keys.mp hkey
    obtain ⟨hb, hother⟩ := mem_keys.mp hother
    have hname : a.name = b.name → a = b := List.inj_on_of_nodup_map hdistinct ha hb
    rcases imitates_of_mem_paths hname hkind hother hpath hpath' with heq | himitates | himitates
    · exact hne heq
    · exact h a ha b hb himitates
    · exact h b hb a ha himitates

/-- Every path leads to one form exactly when different forms share no path. -/
theorem existsUnique_searchedBy_iff :
    (∀ path ∈ (searched (keys stored)).map Value.text,
        ∃! s, s ∈ (keys stored).map FormKey.form ∧ s.SearchedBy path) ↔
      ∀ key ∈ keys stored, ∀ other ∈ keys stored, key ≠ other →
        key.paths.Disjoint other.paths := by
  constructor
  · intro h key hkey other hother hne path hpath hpath'
    obtain ⟨s, _, hs⟩ := h (.text path)
      (List.mem_map_of_mem (mem_searched.mpr ⟨key, hkey, hpath⟩))
    have hform := hs _ ⟨List.mem_map_of_mem hkey, (searchedBy_form_iff key path).mpr hpath⟩
    have hform' := hs _ ⟨List.mem_map_of_mem hother, (searchedBy_form_iff other path).mpr hpath'⟩
    exact hne (eq_of_form_eq hdistinct hkey hother (hform.trans hform'.symm))
  · intro h v hv
    obtain ⟨path, hpath, rfl⟩ := List.mem_map.mp hv
    obtain ⟨key, hkey, hpath⟩ := mem_searched.mp hpath
    refine ⟨key.form, ⟨List.mem_map_of_mem hkey, (searchedBy_form_iff key path).mpr hpath⟩, ?_⟩
    rintro s ⟨hs, hsearched⟩
    obtain ⟨other, hother, rfl⟩ := List.mem_map.mp hs
    have hpath' := (searchedBy_form_iff other path).mp hsearched
    by_contra hne
    exact h other hother key hkey (fun heq => hne (congrArg FormKey.form heq)) hpath' hpath

end Stored

namespace FieldSpec

/-- Searchable attributes that are stored under different names.  The search fields of their forms
have no repeated entry exactly when no name is spelled after another one, and exactly when every
search field leads to one form. -/
theorem searchFields_nodup_iff {specs : List FieldSpec} {stored : List Stored}
    (h : Stores specs stored) (hdistinct : (stored.map Stored.name).Nodup) :
    ∃ forms fields, allSubFields specs = .ok forms ∧ SubField.searchFields forms = .ok fields ∧
      forms.Nodup ∧
      (fields.Nodup ↔ ∀ a ∈ stored, ∀ b ∈ stored, ¬ a.Imitates b) ∧
      (fields.Nodup ↔ ∀ path ∈ fields, ∃! s, s ∈ forms ∧ s.SearchedBy path) := by
  have hkeys := Stored.nodup_keys (List.Nodup.of_map _ hdistinct)
  have hnodup := (List.nodup_map_iff fun _ _ => Value.text.inj).trans
    (FormKey.nodup_searched_iff hkeys)
  refine ⟨_, _, h.allSubFields_eq, FormKey.searchFields_forms _, Stored.nodup_forms hdistinct,
    ?_, ?_⟩
  · exact hnodup.trans (Stored.disjoint_paths_iff hdistinct)
  · exact hnodup.trans (Stored.existsUnique_searchedBy_iff hdistinct).symm

/-- The attributes of books have fifteen search fields, each of one form. -/
theorem searchFields_nodup_iff_books :
    Stores bookSpecs bookAttributes ∧ (bookAttributes.map Stored.name).Nodup ∧
      ∃ forms fields, allSubFields bookSpecs = .ok forms ∧
        SubField.searchFields forms = .ok fields ∧ fields.length = 15 ∧
        ∀ path ∈ fields, ∃! s, s ∈ forms ∧ s.SearchedBy path := by
  have hdistinct : (bookAttributes.map Stored.name).Nodup := by decide
  obtain ⟨forms, fields, hforms, hfields, _, _, hunique⟩ :=
    searchFields_nodup_iff stores_books hdistinct
  obtain rfl := Except.ok.inj (hforms.symm.trans stores_books.allSubFields_eq)
  obtain rfl := Except.ok.inj (hfields.symm.trans (FormKey.searchFields_forms _))
  have hnodup : (FormKey.searched (Stored.keys bookAttributes)).Nodup := by decide
  refine ⟨stores_books, hdistinct, _, _, hforms, hfields, by decide, hunique.mp ?_⟩
  exact hnodup.map fun _ _ => Value.text.inj

/-- A name, and another attribute that is called like the flat name of it. -/
def imitatingSpecs : List FieldSpec :=
  [⟨.text "name", .word, .bool false, []⟩, ⟨.text "ac_name", .word, .bool false, []⟩]

/-- Attributes of different names can share a path. -/
theorem exists_path_shared :
    Stores imitatingSpecs [⟨.word, "name"⟩, ⟨.word, "ac_name"⟩] ∧ ["name", "ac_name"].Nodup ∧
      ∃ forms fields, allSubFields imitatingSpecs = .ok forms ∧
        SubField.searchFields forms = .ok fields ∧ ¬ fields.Nodup ∧
        ∃ s ∈ forms, ∃ t ∈ forms, s.isRaw ≠ t.isRaw ∧ s.SearchedBy (.text "ac_name") ∧
          t.SearchedBy (.text "ac_name") := by
  have hstores : Stores imitatingSpecs [⟨.word, "name"⟩, ⟨.word, "ac_name"⟩] :=
    @Stores.cons _ _ ["name"] _ rfl (@Stores.cons _ _ ["ac_name"] _ rfl .nil)
  refine ⟨hstores, by decide, _, _, hstores.allSubFields_eq, FormKey.searchFields_forms _, ?_, ?_⟩
  · rw [List.nodup_map_iff fun _ _ => Value.text.inj]
    decide
  · refine ⟨FormKey.form ⟨⟨.word, "name"⟩, some .base⟩, List.mem_map_of_mem (by decide),
      FormKey.form ⟨⟨.word, "ac_name"⟩, none⟩, List.mem_map_of_mem (by decide), by decide, ?_, ?_⟩
    · exact (FormKey.searchedBy_form_iff _ _).mpr (by decide)
    · exact (FormKey.searchedBy_form_iff _ _).mpr (by decide)

end FieldSpec

end Typeahead
