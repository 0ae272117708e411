import Typeahead.Proofs.Mirror.Committing
import Typeahead.Proofs.Session.Idle

/-!
# Changes between flushes

Adding, changing and deleting objects of one class, with ids that tell them apart and are
not set again, touches neither rows nor writes and leaves a regular session.
-/

namespace Typeahead

namespace Session

variable {name : String} {t : Table} {x : Searchable} {s w : Session}

/-- A new object with an id of its own, or none, waits to be stored. -/
theorem Regular.add (h : s.Regular name t) {values : Options}
    (hattrs : ∀ a, a ∉ t.attrs → values.get? a = none) (hid : (values.getD "id" .null).IsId)
    (hobjects : w.objects = s.objects ++
      [{ Obj.create s.objects.length name values with standing := .pending }])
    (hrows : w.rows = s.rows) (hfresh : w.fresh = s.fresh ++ [s.objects.length])
    (hmarked : w.marked = s.marked) (hsound : w.Sound) : w.Regular name t := by
  have hmem : ∀ o, o ∈ w.objects → o.standing = .stored → o ∈ s.objects := by
    intro o ho hstored
    rw [hobjects] at ho
    rcases List.mem_append.mp ho with ho | ho
    · exact ho
    · rw [List.mem_singleton.mp ho] at hstored
      cases hstored
  have hlength : w.objects.length = s.objects.length + 1 := by rw [hobjects]; simp
  refine { sound := hsound, rows := by rw [hrows]; exact h.rows, objects := ?objects,
           fresh := ?fresh, known := ?known, marked := ?marked, distinct := ?distinct,
           lives := ?lives }
  case objects =>
    intro o ho
    rw [hobjects] at ho
    rcases List.mem_append.mp ho with ho | ho
    · exact h.objects o ho
    · rw [List.mem_singleton.mp ho]
      exact ⟨rfl, rfl, hattrs, hid, nofun, nofun, nofun⟩
  case fresh =>
    rw [hfresh]
    refine List.nodup_append.mpr ⟨h.fresh, List.nodup_singleton _, fun id hid' i hi => ?_⟩
    rw [List.mem_singleton.mp hi]
    exact (h.known id (List.mem_append_left _ hid')).ne
  case known =>
    intro id hid'
    rw [hfresh, hmarked, List.append_assoc, List.mem_append, List.mem_append] at hid'
    rw [hlength]
    rcases hid' with hold | hnew | hold
    · exact (h.known id (List.mem_append_left _ hold)).trans (Nat.lt_succ_self _)
    · rw [List.mem_singleton.mp hnew]
      exact Nat.lt_succ_self _
    · exact (h.known id (List.mem_append_right _ hold)).trans (Nat.lt_succ_self _)
  case marked =>
    intro o ho
    obtain ⟨hmark, hobject⟩ := mem_objectsOf.mp ho
    rw [hmarked] at hmark
    have hlt := h.known o.id (List.mem_append_right _ hmark)
    have hold : o ∈ s.objects := by
      have ho := (mem_of_object?_eq_some hobject).1
      rw [hobjects] at ho
      rcases List.mem_append.mp ho with ho | ho
      · exact ho
      · rw [List.mem_singleton.mp ho] at hlt
        exact absurd hlt (Nat.lt_irrefl _)
    exact h.marked o (mem_objectsOf.mpr ⟨hmark, h.sound.object?_eq hold⟩)
  case distinct =>
    exact fun o ho p hp hostored hpstored =>
      h.distinct o (hmem o ho hostored) p (hmem p hp hpstored) hostored hpstored
  case lives =>
    rintro o ⟨ho, hstored, hnot⟩
    rw [hrows]
    exact h.lives o ⟨hmem o ho hstored, hstored, hmarked ▸ hnot⟩

theorem mem_put {p q : Obj} (h : q ∈ (s.modifyObject p.id fun _ => p).objects) :
    q = p ∨ q ∈ s.objects ∧ q.id ≠ p.id := by
  obtain ⟨o, ho, rfl⟩ := List.mem_map.mp h
  by_cases hid : o.id = p.id
  · exact Or.inl (by simp [hid])
  · exact Or.inr (by simpa [hid] using ho)

/-- An object is put in the place of the one with its number, and may be marked.  No other
stored object has its id, and it has a row if it is live. -/
theorem Regular.put (h : s.Regular name t) {p : Obj} (hp : p.Regular name t)
    (hsound : p.Sound s.fresh) (hknown : p.id < s.objects.length) {marked : List Nat}
    (hmarked : ∀ id ∈ marked, id = p.id ∧ p.standing = .stored ∨ id ≠ p.id ∧ id ∈ s.marked)
    (hmarks : ∀ id ∈ s.marked, id ∈ marked)
    (hplace : p.standing = .stored → ∀ d ∈ s.objects, d.standing = .stored →
      d.label.same p.label = true → d.id = p.id)
    (hlive : p.standing = .stored → p.id ∉ marked →
      ∃ r, Row.find? s.rows t.name p.label = some r ∧ p.Tracks r) :
    ({ s.modifyObject p.id fun _ => p with marked := marked } : Session).Regular name t := by
  refine { sound := (h.sound.put hsound).of_objects_eq rfl, rows := h.rows, objects := ?objects,
           fresh := h.fresh, known := ?known, marked := ?marked, distinct := ?distinct,
           lives := ?lives }
  case objects =>
    intro q hq
    rcases mem_put hq with rfl | ⟨hold, _⟩
    · exact hp
    · exact h.objects q hold
  case known =>
    intro id hid
    rw [modifyObject, List.length_map]
    rcases List.mem_append.mp hid with hid | hid
    · exact h.known id (List.mem_append_left _ hid)
    · rcases hmarked id hid with ⟨rfl, _⟩ | ⟨_, hid⟩
      · exact hknown
      · exact h.known id (List.mem_append_right _ hid)
  case marked =>
    intro q hq
    obtain ⟨hmark, hobject⟩ := mem_objectsOf.mp hq
    rcases mem_put (mem_of_object?_eq_some hobject).1 with rfl | ⟨hold, hne⟩
    · rcases hmarked q.id hmark with ⟨_, hstored⟩ | ⟨hne, _⟩
      · exact hstored
      · exact absurd rfl hne
    · rcases hmarked q.id hmark with ⟨heq, _⟩ | ⟨_, hmark⟩
      · exact absurd heq hne
      · exact h.marked q (mem_objectsOf.mpr ⟨hmark, h.sound.object?_eq hold⟩)
  case distinct =>
    intro a ha b hb hastored hbstored hsame
    rcases mem_put ha with rfl | ⟨haold, hane⟩
    · rcases mem_put hb with rfl | ⟨hbold, hbne⟩
      · rfl
      · exact absurd (hplace hastored b hbold hbstored (hp.label.symm hsame)) hbne
    · rcases mem_put hb with rfl | ⟨hbold, _⟩
      · exact absurd (hplace hbstored a haold hastored hsame) hane
      · exact h.distinct a haold b hbold hastored hbstored hsame
  case lives =>
    rintro q ⟨hq, hstored, hnot⟩
    rcases mem_put hq with rfl | ⟨hold, _⟩
    · exact hlive hstored hnot
    · exact h.lives q ⟨hold, hstored, fun hmark => hnot (hmarks q.id hmark)⟩

/-- A known object is stored again and marked, when no other stored object has its id. -/
theorem Regular.mark (h : s.Regular name t) {o : Obj} (ho : o ∈ s.objects)
    (hkey : o.key.isSome = true) (hplace : ∀ d ∈ s.objects, d.standing = .stored →
      d.label.same o.label = true → d = o) :
    ({ s.modifyObject o.id fun _ => { o with standing := .stored } with
      marked := s.marked ++ [o.id] } : Session).Regular name t := by
  have hregular := h.objects o ho
  have hsound := h.sound.objects o ho
  have hknown : o.id < s.objects.length := h.sound.id_lt ho
  have hstored : ({ o with standing := .stored } : Obj).Regular name t :=
    ⟨hregular.entity, hregular.present, hregular.names, hregular.label, hregular.keyed,
      fun _ => hkey, hregular.calm⟩
  refine Regular.put (p := { o with standing := .stored }) h hstored
    ⟨hsound.tracked, fun hnew => ?keyless, fun hid => ?pending⟩ hknown
    (fun id hid => ?marked) (fun id hid => List.mem_append_left _ hid)
    (fun _ d hd hdstored hsame => by rw [hplace d hd hdstored hsame])
    fun _ hnot => absurd (List.mem_append_right _ (List.mem_singleton_self o.id)) hnot
  case keyless => rcases hnew with hnew | hnew <;> cases hnew
  case pending =>
    rw [hsound.keyless (Or.inl (hsound.pending hid))] at hkey
    cases hkey
  case marked =>
    by_cases heq : id = o.id
    · exact Or.inl ⟨heq, rfl⟩
    · rcases List.mem_append.mp hid with hid | hid
      · exact Or.inr ⟨heq, hid⟩
      · exact absurd (List.mem_singleton.mp hid) heq

/-- An object takes a value for an attribute other than the id. -/
theorem Faithful.set (hs : s.Faithful name t x) {o : Obj} (ho : s.object? o.id = some o)
    {attr : String} (value : Value) (hattr : attr ∈ t.attrs) (hne : attr ≠ "id") :
    (s.modifyObject o.id fun _ => o.set attr value).Faithful name t x := by
  have hmem := (mem_of_object?_eq_some ho).1
  have hlabel := o.label_set value hne
  have hknown : o.id < s.objects.length := hs.regular.sound.id_lt hmem
  have hsound := hs.regular.sound.objects o hmem
  refine hs.of_regular (hs.regular.put (p := o.set attr value)
    ((hs.regular.objects o hmem).set value hattr hne)
    ⟨Obj.tracked_set hsound.tracked attr value, hsound.keyless, hsound.pending⟩
    hknown (fun id hid => ?marked) (fun _ hid => hid)
    (fun hstored d hd hdstored hsame => ?place) fun hstored hnot => ?live) rfl rfl rfl hs.shallow
  case marked =>
    by_cases heq : id = o.id
    · have hmark : o.id ∈ s.marked := by rw [← heq]; exact hid
      exact Or.inl ⟨heq, hs.regular.marked o (mem_objectsOf.mpr ⟨hmark, ho⟩)⟩
    · exact Or.inr ⟨heq, hid⟩
  case place =>
    rw [hlabel] at hsame
    rw [hs.regular.distinct d hd o hmem hdstored hstored hsame]
    rfl
  case live =>
    obtain ⟨r, hr, htracks⟩ := hs.regular.lives o ⟨hmem, hstored, hnot⟩
    rw [hlabel]
    exact ⟨r, hr, htracks.set attr value⟩

end Session

namespace Surroundings

open Session

variable {c : Surroundings} {name : String} {t : Table} {x : Searchable} {s w : Session}

/-- Adding an object puts it behind the others, to be stored. -/
theorem add_cases (htable : c.catalog.table? name = some t) (object : String) (values : Options)
    (s : Session) :
    (c.add object name values s).2 = s ∨
      (∀ a, a ∉ t.attrs → values.get? a = none) ∧
        (c.add object name values s).2 = { s.begin with
          objects := s.objects ++
            [{ Obj.create s.objects.length name values with standing := .pending }]
          names := (object, s.objects.length) :: s.names
          fresh := s.fresh ++ [s.objects.length] } := by
  unfold add
  rw [Catalog.table?] at htable
  cases hlineage : c.catalog.lineage name with
  | nil => exact Or.inl rfl
  | cons e rest =>
      rw [hlineage] at htable
      have htable : e.model.table = some t := htable
      dsimp only
      rw [htable]
      dsimp only
      by_cases hall : values.all fun v => t.attrs.contains v.1
      · rw [if_pos hall]
        refine Or.inr ⟨fun a ha => ?_, rfl⟩
        rw [Options.get?, Option.map_eq_none_iff, List.find?_eq_none]
        intro e he heq
        have hknown := List.all_eq_true.mp hall e he
        rw [eq_of_beq heq] at hknown
        exact ha (by simpa using hknown)
      · rw [if_neg hall]
        exact Or.inl rfl

/-- A new object may have an id of its own, one that tells it apart, or none. -/
theorem preserves_add (hc : c.Replicates name t x) (object : String) {values : Options}
    (hid : (values.getD "id" .null).IsId) :
    Exec.Follows (Exec.Preserves (Session.Faithful name t x)) (c.add object name values) := by
  intro s hs
  have hidles := c.follows_add object name values s
  rcases add_cases hc.table object values s with heq | ⟨hattrs, heq⟩
  · rw [heq]
    exact hs
  · rw [heq] at hidles ⊢
    refine hs.of_regular (hs.regular.add hattrs hid rfl s.begin_rows rfl s.begin_marked
      (hidles.sound hs.regular.sound)) s.begin_rows s.begin_queue s.begin_sent ?_
    exact (length_begin hs.shallow).le

/-- What is done with a named object leaves the session alone when there is none of the name. -/
theorem named_cases {α : Type} (object : String) (f : Nat → Exec α) (s : Session) :
    ((Exec.named object >>= f) s).2 = s ∨ ∃ id, (Exec.named object >>= f) s = f id s := by
  have hsame : s = (Exec.named object s).2 := Exec.follows_named (R := Eq) object s
  rw [Exec.bind_apply]
  rcases hnamed : Exec.named object s with ⟨r, u⟩
  rw [hnamed] at hsame
  obtain rfl : s = u := hsame
  cases r with
  | ok id => exact Or.inr ⟨id, rfl⟩
  | error e => exact Or.inl rfl

/-- Setting an attribute changes one object, and it may open a transaction. -/
theorem set_cases (htable : c.catalog.table? name = some t)
    (hs : ∀ o ∈ s.objects, o.entity = name ∧ o.expired = false) (object : String) {attr : String}
    (value : Value) (hattr : attr ∈ t.attrs) :
    (c.set object attr value s).2 = s ∨ ∃ w o, (w = s ∨ w = s.begin) ∧ w.object? o.id = some o ∧
      (c.set object attr value s).2 = w.modifyObject o.id fun _ => o.set attr value := by
  rcases named_cases object _ s with heq | ⟨id, heq⟩
  · exact Or.inl heq
  · rw [set, heq, Exec.bind_apply, Exec.object_apply]
    cases ho : s.object? id with
    | none => exact Or.inl rfl
    | some o =>
        obtain ⟨hmem, rfl⟩ := mem_of_object?_eq_some ho
        obtain ⟨hentity, hpresent⟩ := hs o hmem
        have hcolumn : ∃ column, t.attribute? attr = some column := by
          rw [← Option.isSome_iff_exists, Table.attribute?, List.find?_isSome]
          obtain ⟨column, hcolumn, rfl⟩ := List.mem_map.mp hattr
          exact ⟨column, hcolumn, by simp⟩
        obtain ⟨column, hcolumn⟩ := hcolumn
        dsimp only
        rw [hentity, htable, Option.bind_some, hcolumn]
        dsimp only
        rw [Exec.bind_apply, c.load_present ho hpresent]
        dsimp only
        split
        · rw [Exec.bind_apply, Exec.modify_apply]
          exact Or.inr ⟨s.begin, o, Or.inr rfl, (object?_begin s o.id).trans ho, rfl⟩
        · exact Or.inr ⟨s, o, Or.inl rfl, ho, rfl⟩

/-- Any attribute of the class may be set, apart from the id. -/
theorem preserves_set (hc : c.Replicates name t x) (object : String) {attr : String}
    (value : Value) (hattr : attr ∈ t.attrs) (hne : attr ≠ "id") :
    Exec.Follows (Exec.Preserves (Session.Faithful name t x)) (c.set object attr value) := by
  intro s hs
  rcases set_cases hc.table (fun o ho => ⟨(hs.regular.objects o ho).entity,
    (hs.regular.objects o ho).present⟩) object value hattr with heq | ⟨w, o, hw, ho, heq⟩
  · rw [heq]
    exact hs
  · rw [heq]
    rcases hw with rfl | rfl
    · exact hs.set ho value hattr hne
    · exact hs.begin.set ho value hattr hne

theorem attach_apply (c : Surroundings) (o : Obj) (s : Session) :
    c.attach o s =
      if c.isPlaceTaken s.begin o then (.error (.session .invalidRequest), s.begin)
      else (.ok (), s.begin.modifyObject o.id fun _ => { o with standing := .stored }) := by
  unfold attach
  rw [Exec.bind_apply, Exec.modify_apply]
  dsimp only
  rw [Exec.bind_apply, Exec.get_apply]
  dsimp only
  split
  · rfl
  · rfl

/-- Deleting an object marks it, unless another one is in its place. -/
theorem delete_cases (c : Surroundings) (object : String) (s : Session) :
    (c.delete object s).2 = s ∨ (c.delete object s).2 = s.begin ∨
      ∃ o, s.begin.object? o.id = some o ∧ o.key.isSome = true ∧
        c.isPlaceTaken s.begin o = false ∧
        (c.delete object s).2 = { s.begin.modifyObject o.id fun _ =>
            { o with standing := .stored } with marked := s.begin.marked ++ [o.id] } := by
  rcases named_cases object _ s with heq | ⟨id, heq⟩
  · exact Or.inl heq
  · rw [delete, heq, Exec.bind_apply, Exec.object_apply]
    cases ho : s.object? id with
    | none => exact Or.inl rfl
    | some o =>
        obtain ⟨hmem, rfl⟩ := mem_of_object?_eq_some ho
        dsimp only
        split
        · exact Or.inl rfl
        · next hkey =>
          have hkey : o.key.isSome = true := by
            rw [Option.isSome_iff_ne_none]
            exact fun hnone => hkey (by rw [hnone]; rfl)
          rw [Exec.bind_apply, Exec.get_apply]
          dsimp only
          split
          · exact Or.inl rfl
          · rw [Exec.bind_apply, attach_apply]
            cases htaken : c.isPlaceTaken s.begin o with
            | true => exact Or.inr (Or.inl rfl)
            | false =>
                exact Or.inr (Or.inr ⟨o, (object?_begin s o.id).trans ho, hkey, htaken, rfl⟩)

/-- When its place is not taken, no other stored object shows the id of an object. -/
theorem eq_of_isPlaceTaken_eq_false (hs : s.Regular name t) {o : Obj}
    (ho : o ∈ s.objects) (hkey : o.key.isSome = true) (h : c.isPlaceTaken s o = false) {d : Obj}
    (hd : d ∈ s.objects) (hstored : d.standing = .stored)
    (hsame : d.label.same o.label = true) : d = o := by
  have hregular := hs.objects o ho
  obtain ⟨k, hk⟩ := Option.isSome_iff_exists.mp hkey
  obtain rfl := (hregular.keyed k hk).1
  unfold isPlaceTaken at h
  rw [hk] at h
  dsimp only at h
  cases hfind : s.storedAt? c (c.tableName o.entity) o.label with
  | none =>
      have hnone := List.find?_eq_none.mp hfind d hd
      simp [hstored, hregular.entity, (hs.objects d hd).entity,
        (hs.objects d hd).key_eq hstored, hsame] at hnone
  | some e =>
      rw [hfind] at h
      obtain ⟨he, hestored, _⟩ := storedAt?_eq_some hfind
      obtain rfl := hs.sound.eq_of_id_eq he ho (by simpa using h)
      exact hs.distinct d hd e he hstored hestored hsame

/-- An object is marked for the next flush. -/
theorem preserves_delete (c : Surroundings) (object : String) :
    Exec.Follows (Exec.Preserves (Session.Faithful name t x)) (c.delete object) := by
  intro s hs
  have hbegin := hs.begin
  rcases c.delete_cases object s with heq | heq | ⟨o, ho, hkey, htaken, heq⟩
  · rw [heq]
    exact hs
  · rw [heq]
    exact hbegin
  · rw [heq]
    have hmem := (mem_of_object?_eq_some ho).1
    have hmark := hbegin.regular.mark hmem hkey fun d hd hstored hsame =>
      eq_of_isPlaceTaken_eq_false hbegin.regular hmem hkey htaken hd hstored hsame
    exact hbegin.of_regular hmark rfl rfl rfl hbegin.shallow

end Surroundings

end Typeahead
