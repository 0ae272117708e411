import Mathlib.Data.List.Nodup
import Typeahead.Proofs.Mapping.Layout

/-!
# Stored attributes and their forms

Specifications are stored under names, `FieldSpec.Stores`, each with the mode of its
specification.  A form of a stored attribute has a key, `FormKey`: the attribute and the tag of
an analyzed form.  No two forms have the same dotted path, whatever the names are: the path
determines the key.
-/

namespace Typeahead

/-- A name that an attribute is stored under, with the mode of its specification. -/
structure Stored where
  mode : Mode
  name : String
  deriving DecidableEq, Repr

namespace Tag

/-- The flat name of an analyzed form. -/
def flatName (tag : Tag) (name : String) : String := tag.lead ++ "_" ++ name

/-- What stands in front of the name in a flat name. -/
theorem toList_flatName (tag : Tag) (name : String) :
    (tag.flatName name).toList = tag.lead.toList ++ '_' :: name.toList := by
  rw [flatName, String.toList_append, String.toList_append, List.append_assoc]
  rfl

end Tag

namespace SubField

/-- The path of a form below its attribute. -/
def dotted (attr name : String) : String := attr ++ "." ++ name

theorem toList_dotted (attr name : String) :
    (dotted attr name).toList = attr.toList ++ '.' :: name.toList := by
  rw [dotted, String.toList_append, String.toList_append, List.append_assoc]
  rfl

/-- The name of a form of an attribute. -/
def nameOf (attr : String) : Option Tag → String
  | none => attr
  | some tag => tag.flatName attr

/-- What stands in front of the attribute in the name of a form. -/
def leadOf : Option Tag → List Char
  | none => []
  | some tag => tag.lead.toList ++ ['_']

theorem toList_nameOf (attr : String) (kind : Option Tag) :
    (nameOf attr kind).toList = leadOf kind ++ attr.toList := by
  cases kind with
  | none => rfl
  | some tag =>
      rw [nameOf, Tag.toList_flatName, leadOf, List.append_assoc]
      rfl

theorem leadOf_injective {kind other : Option Tag} (h : leadOf kind = leadOf other) :
    kind = other := by
  revert h
  cases kind with
  | none => rcases other with _ | _ | _ | _ <;> decide
  | some tag => cases tag <;> rcases other with _ | _ | _ | _ <;> decide

/-- The forms of one attribute have different names. -/
theorem nameOf_injective (attr : String) {kind other : Option Tag}
    (h : nameOf attr kind = nameOf attr other) : kind = other := by
  have hlist := congrArg String.toList h
  rw [toList_nameOf, toList_nameOf] at hlist
  exact leadOf_injective (List.append_cancel_right hlist)

theorem dot_notMem_leadOf (kind : Option Tag) : '.' ∉ leadOf kind := by
  rcases kind with _ | _ | _ | _ <;> decide

/-- A dot in a text whose start has none comes behind the start. -/
theorem split_of_dot {start rest before after : List Char} (hstart : '.' ∉ start)
    (h : start ++ rest = before ++ '.' :: after) :
    ∃ between, before = start ++ between ∧ rest = between ++ '.' :: after := by
  rcases List.append_eq_append_iff.mp h with hinside | ⟨bs, hbs, hafter⟩
  · exact hinside
  · cases bs with
    | nil => exact ⟨[], by simpa using hbs.symm, hafter.symm⟩
    | cons c bs =>
        obtain ⟨rfl, _⟩ := List.cons.inj hafter
        exact absurd (hbs ▸ List.mem_append_right before List.mem_cons_self) hstart

/-- Of two dotted paths that are equal, neither attribute goes on behind the other one. -/
theorem eq_nil_of_dotted {start other name more : List Char} (hstart : '.' ∉ start)
    (h : '.' :: (start ++ name) = more ++ '.' :: (other ++ (name ++ more))) : more = [] := by
  cases more with
  | nil => rfl
  | cons c more =>
      obtain ⟨_, hrest⟩ := List.cons.inj h
      obtain ⟨between, _, hname⟩ := split_of_dot hstart hrest
      have hlength := congrArg List.length hname
      simp only [List.length_append, List.length_cons] at hlength
      omega

/-- A dotted path determines its attribute and the kind of its form. -/
theorem dotted_injective {attr other : String} {kind kind' : Option Tag}
    (h : dotted attr (nameOf attr kind) = dotted other (nameOf other kind')) :
    attr = other ∧ kind = kind' := by
  have hlist := congrArg String.toList h
  rw [toList_dotted, toList_dotted, toList_nameOf, toList_nameOf] at hlist
  have hattr : attr = other := by
    -- one of the attributes begins with the other one, and what follows is empty
    rcases List.append_eq_append_iff.mp hlist with ⟨more, hmore, hrest⟩ | ⟨more, hmore, hrest⟩
    · rw [hmore] at hrest
      have hnil := eq_nil_of_dotted (dot_notMem_leadOf kind) hrest
      rw [hnil, List.append_nil] at hmore
      exact (String.toList_inj.mp hmore).symm
    · rw [hmore] at hrest
      have hnil := eq_nil_of_dotted (dot_notMem_leadOf kind') hrest
      rw [hnil, List.append_nil] at hmore
      exact String.toList_inj.mp hmore
  subst hattr
  refine ⟨rfl, leadOf_injective ?_⟩
  exact List.append_cancel_right (List.cons.inj (List.append_cancel_left hlist)).2

end SubField

/-- What tells a form from the others: its stored attribute, and the tag of an analyzed form. -/
structure FormKey where
  stored : Stored
  kind : Option Tag
  deriving DecidableEq, Repr

namespace Stored

/-- The kinds of the forms of an attribute: the raw one, then one for each tag of its mode. -/
def kinds (a : Stored) : List (Option Tag) := none :: a.mode.tags.map some

theorem nodup_kinds (a : Stored) : a.kinds.Nodup := by
  rw [kinds]
  cases a.mode with
  | _ => decide

/-- The keys of all forms of several attributes. -/
def keys (stored : List Stored) : List FormKey := stored.flatMap fun a => a.kinds.map (FormKey.mk a)

theorem mem_keys {stored : List Stored} {key : FormKey} :
    key ∈ keys stored ↔ key.stored ∈ stored ∧ key.kind ∈ key.stored.kinds := by
  rw [keys, List.mem_flatMap]
  constructor
  · rintro ⟨a, ha, hkey⟩
    obtain ⟨kind, hkind, rfl⟩ := List.mem_map.mp hkey
    exact ⟨ha, hkind⟩
  · rintro ⟨ha, hkind⟩
    exact ⟨key.stored, ha, List.mem_map_of_mem hkind⟩

theorem nodup_keys {stored : List Stored} (h : stored.Nodup) : (keys stored).Nodup := by
  refine List.nodup_flatMap.mpr ⟨fun a _ => ?_, h.imp fun {a b} hne => ?_⟩
  · exact a.nodup_kinds.map fun kind other heq => (FormKey.mk.inj heq).2
  · intro key ha hb
    obtain ⟨_, _, rfl⟩ := List.mem_map.mp ha
    obtain ⟨_, _, heq⟩ := List.mem_map.mp hb
    exact hne (FormKey.mk.inj heq).1.symm

end Stored

namespace FormKey

/-- The name of a form. -/
def name (key : FormKey) : String := SubField.nameOf key.stored.name key.kind

/-- The dotted path of a form. -/
def path (key : FormKey) : String := SubField.dotted key.stored.name key.name

/-- The form of a key. -/
def form : FormKey → SubField
  | ⟨a, none⟩ => .raw (.text a.name) (.text a.name)
  | ⟨a, some tag⟩ => .form a.mode a.name tag

theorem attr_form (key : FormKey) : key.form.attr = .text key.stored.name := by
  obtain ⟨a, _ | tag⟩ := key
  · rfl
  · rfl

theorem name_form (key : FormKey) : key.form.name = .text key.name := by
  obtain ⟨a, _ | tag⟩ := key
  · rfl
  · rfl

theorem nestedPath_form (key : FormKey) : key.form.nestedPath = .ok (.text key.path) := by
  obtain ⟨a, _ | tag⟩ := key
  · rfl
  · rfl

theorem isRaw_form (key : FormKey) : key.form.isRaw = key.kind.isNone := by
  obtain ⟨a, _ | tag⟩ := key
  · rfl
  · rfl

end FormKey

namespace Stored

/-- All forms of an attribute, in the order of their kinds. -/
theorem forms_eq (a : Stored) :
    SubField.forms a.mode a.name = (a.kinds.map (FormKey.mk a)).map FormKey.form := by
  rw [SubField.forms, kinds, List.map_cons, List.map_cons, List.map_map, List.map_map]
  rfl

theorem flatMap_forms (stored : List Stored) :
    (stored.flatMap fun a => SubField.forms a.mode a.name) = (keys stored).map FormKey.form := by
  rw [keys, List.map_flatMap]
  congr 1
  funext a
  rw [forms_eq]

variable {stored : List Stored} (hdistinct : (stored.map Stored.name).Nodup)

include hdistinct

/-- Attributes of different names have forms of different names. -/
theorem eq_of_names_eq {key other : FormKey} (hkey : key ∈ keys stored)
    (hother : other ∈ keys stored) (hattr : key.form.attr = other.form.attr)
    (hname : key.form.name = other.form.name) : key = other := by
  obtain ⟨a, kind⟩ := key
  obtain ⟨b, kind'⟩ := other
  rw [FormKey.attr_form, FormKey.attr_form] at hattr
  obtain rfl : a = b := List.inj_on_of_nodup_map hdistinct (mem_keys.mp hkey).1
    (mem_keys.mp hother).1 (Value.text.inj hattr)
  rw [FormKey.name_form, FormKey.name_form] at hname
  obtain rfl := SubField.nameOf_injective a.name (Value.text.inj hname)
  rfl

theorem eq_of_form_eq {key other : FormKey} (hkey : key ∈ keys stored)
    (hother : other ∈ keys stored) (h : key.form = other.form) : key = other :=
  eq_of_names_eq hdistinct hkey hother (congrArg SubField.attr h) (congrArg SubField.name h)

theorem nodup_forms : ((keys stored).map FormKey.form).Nodup :=
  (nodup_keys (List.Nodup.of_map _ hdistinct)).map_on fun _ hkey _ hother =>
    eq_of_form_eq hdistinct hkey hother

/-- Different forms have different dotted paths. -/
theorem nodup_path : ((keys stored).map FormKey.path).Nodup := by
  refine (nodup_keys (List.Nodup.of_map _ hdistinct)).map_on fun key hkey other hother h => ?_
  obtain ⟨a, kind⟩ := key
  obtain ⟨b, kind'⟩ := other
  obtain ⟨hname, rfl⟩ := SubField.dotted_injective h
  obtain rfl : a = b := List.inj_on_of_nodup_map hdistinct (mem_keys.mp hkey).1
    (mem_keys.mp hother).1 hname
  rfl

end Stored

namespace FieldSpec

/-- The names that specifications are stored under, each with the mode of its specification. -/
inductive Stores : List FieldSpec → List Stored → Prop
  | nil : Stores [] []
  | cons {spec : FieldSpec} {specs : List FieldSpec} {names : List String} {stored : List Stored}
      (hspec : spec.attributes = .ok (names.map .text)) (hspecs : Stores specs stored) :
      Stores (spec :: specs) (names.map (Stored.mk spec.mode) ++ stored)

theorem subFields_eq {spec : FieldSpec} {names : List String}
    (h : spec.attributes = .ok (names.map .text)) :
    spec.subFields = .ok (names.flatMap (SubField.forms spec.mode)) := by
  have hgroups : (names.map Value.text).mapM (SubField.ofAttribute spec.mode) =
      .ok (names.map (SubField.forms spec.mode)) := by
    refine (Outcome.mapM_eq_ok_iff _ _ _).mpr ?_
    rw [List.forall₂_map_left_iff, List.forall₂_map_right_iff, List.forall₂_same]
    exact fun name _ => SubField.ofAttribute_text spec.mode name
  refine (Outcome.bind_eq_ok_iff _ _ _).mpr ⟨_, h, ?_⟩
  exact (Outcome.bind_eq_ok_iff _ _ _).mpr ⟨_, hgroups, rfl⟩

/-- The forms of specifications are those of the names that they are stored under. -/
theorem Stores.allSubFields_eq {specs : List FieldSpec} {stored : List Stored}
    (h : Stores specs stored) :
    allSubFields specs = .ok ((Stored.keys stored).map FormKey.form) := by
  obtain ⟨groups, hgroups, hflat⟩ : ∃ groups, specs.mapM subFields = .ok groups ∧
      groups.flatten = stored.flatMap fun a => SubField.forms a.mode a.name := by
    induction h with
    | nil => exact ⟨[], rfl, rfl⟩
    | @cons spec specs names stored hspec _ ih =>
        obtain ⟨groups, hgroups, hflat⟩ := ih
        refine ⟨names.flatMap (SubField.forms spec.mode) :: groups, ?_, ?_⟩
        · rw [List.mapM_cons, subFields_eq hspec, hgroups]
          rfl
        · rw [List.flatten_cons, hflat, List.flatMap_append, List.flatMap_map]
  rw [← Stored.flatMap_forms, ← hflat]
  exact (Outcome.bind_eq_ok_iff _ _ _).mpr ⟨groups, hgroups, rfl⟩

/-- Books have an author with a name, and a title in two languages. -/
def bookSpecs : List FieldSpec :=
  [⟨.text "author.name", .word, .bool false, []⟩,
    ⟨.text "title", .full, .bool true, [.text "en", .text "de"]⟩]

/-- What books are stored under. -/
def bookAttributes : List Stored :=
  [⟨.word, "author.name"⟩, ⟨.full, "title_en"⟩, ⟨.full, "title_de"⟩]

theorem stores_books : Stores bookSpecs bookAttributes :=
  @Stores.cons _ _ ["author.name"] _ rfl (@Stores.cons _ _ ["title_en", "title_de"] _ rfl .nil)

end FieldSpec

end Typeahead
