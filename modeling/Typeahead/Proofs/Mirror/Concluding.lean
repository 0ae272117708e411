import Typeahead.Proofs.Mirror.Flushing

/-!
# The objects after a flush

When no two objects that stay show the same id, a flush pushes no object out: new and changed
objects are stored under the ids that they show, and removed ones are gone.
-/

namespace Typeahead

namespace Obj

/-- An object that is stored under the id that it shows, without changes. -/
def kept (o : Obj) : Obj := { o with standing := .stored, key := some o.label }.settle

end Obj

namespace Session

theorem modifyInnermost_eq (s : Session) (f : Transaction → Transaction) :
    ∃ stack, stack.length = s.stack.length ∧ s.modifyInnermost f = { s with stack := stack } := by
  obtain ⟨objects, names, fresh, marked, stack, savepoints, created, rows, queue, sent⟩ := s
  cases stack with
  | nil => exact ⟨[], rfl, rfl⟩
  | cons tr rest => exact ⟨f tr :: rest, rfl, rfl⟩

theorem objects_modifyInnermost (s : Session) (f : Transaction → Transaction) :
    (s.modifyInnermost f).objects = s.objects ∧ (s.modifyInnermost f).rows = s.rows := by
  obtain ⟨stack, _, h⟩ := s.modifyInnermost_eq f
  rw [h]
  exact ⟨rfl, rfl⟩

theorem storedAt?_eq_some {c : Surroundings} {s : Session} {table : String} {key : Value} {d : Obj}
    (h : s.storedAt? c table key = some d) :
    d ∈ s.objects ∧ d.standing = .stored ∧ ∃ k, d.key = some k ∧ k.same key = true := by
  have hat := List.find?_some h
  simp only [Bool.and_eq_true, beq_iff_eq] at hat
  refine ⟨List.mem_of_find?_eq_some h, hat.1.1, ?_⟩
  cases hkey : d.key with
  | none => simp [hkey] at hat
  | some k => exact ⟨k, rfl, by simpa [hkey] using hat.2⟩

/-- Marked objects are removed. -/
theorem objects_foldl_removed (ids : List Nat) (s : Session) :
    (ids.foldl (fun s id => s.modifyObject id fun o => { o with standing := .removed }) s).objects =
      s.objects.map fun o => if o.id ∈ ids then { o with standing := .removed } else o := by
  induction ids generalizing s with
  | nil => simp
  | cons id ids ih =>
      rw [List.foldl_cons, ih, modifyObject, List.map_map]
      refine List.map_congr_left fun o _ => ?_
      by_cases hid : o.id = id
      · by_cases hids : id ∈ ids
        · simp [hid, hids]
        · simp [hid, hids]
      · simp [hid]

end Session

namespace Surroundings

open Session

variable {c : Surroundings} {name : String} {t : Table} {x : Searchable} {s : Session}

/-- An object is kept in its place when no other one is there. -/
theorem objects_keep (hc : c.Replicates name t x) (hnodup : (s.objects.map (·.id)).Nodup) {o : Obj}
    (ho : o ∈ s.objects) (hentity : o.entity = name)
    (hplace : ∀ d ∈ s.objects, d.standing = .stored → ∀ k, d.key = some k →
      k.same o.label = true → d.id = o.id) :
    (c.keep s o.id).objects = s.objects.map fun p => if p.id = o.id then p.kept else p := by
  have hobject : s.object? o.id = some o := by
    cases hfind : s.object? o.id with
    | none =>
        have hnone := List.find?_eq_none.mp hfind o ho
        simp at hnone
    | some p =>
        obtain ⟨hp, hid⟩ := mem_of_object?_eq_some hfind
        exact congrArg some (List.inj_on_of_nodup_map hnodup hp ho hid)
  have hstay : ∀ (u : Session), u.objects = s.objects →
      (u.modifyObject o.id fun o' =>
        { o' with standing := .stored, key := some o.label }.settle).objects =
        s.objects.map fun p => if p.id = o.id then p.kept else p := by
    intro u hu
    rw [modifyObject, hu]
    refine List.map_congr_left fun p hp => ?_
    by_cases hid : p.id = o.id
    · obtain rfl := List.inj_on_of_nodup_map hnodup hp ho hid
      simp [Obj.kept]
    · simp [hid]
  have hself : ∀ d, s.storedAt? c (c.tableName o.entity) o.label = some d →
      (d.id == o.id) = true := by
    intro d hd
    obtain ⟨hmem, hstored, k, hk, hsame⟩ := storedAt?_eq_some hd
    simp [hplace d hmem hstored k hk hsame]
  unfold keep
  rw [hobject]
  dsimp only
  rw [hc.ownKey_eq hentity]
  cases hd : s.storedAt? c (c.tableName o.entity) o.label with
  | none =>
      cases o.key.filter fun k => !k.same o.label with
      | none => exact hstay s rfl
      | some k => exact hstay _ (objects_modifyInnermost s _).1
  | some d =>
      simp only [hself d hd, if_true]
      cases o.key.filter fun k => !k.same o.label with
      | none => exact hstay s rfl
      | some k => exact hstay _ (objects_modifyInnermost s _).1

/-- All objects of a list are kept.  `T` says of which objects the places are different. -/
theorem objects_foldl_keep (hc : c.Replicates name t x) {objects : List Obj} {T : Obj → Prop}
    (hnodup : (objects.map (·.id)).Nodup) (hentity : ∀ o ∈ objects, o.entity = name)
    (hapart : ∀ o ∈ objects, ∀ p ∈ objects, T o → T p → o.label.same p.label = true → o = p)
    (hstored : ∀ o ∈ objects, o.standing = .stored → T o ∧ o.key = some o.label) (ids : List Nat)
    (hids : ∀ id ∈ ids, ∃ o ∈ objects, o.id = id ∧ T o) {g : Obj → Obj}
    (hg : ∀ o ∈ objects, g o = o ∨ T o ∧ g o = o.kept) (hs : s.objects = objects.map g) :
    (ids.foldl c.keep s).objects = objects.map fun o => if o.id ∈ ids then o.kept else g o := by
  induction ids generalizing s g with
  | nil => simpa using hs
  | cons id ids ih =>
      obtain ⟨o, ho, rfl, hTo⟩ := hids id List.mem_cons_self
      have hshape : ∀ p ∈ objects, (g p).id = p.id ∧ (g p).label = p.label ∧
          (g p).entity = p.entity ∧ (g p).kept = p.kept := by
        intro p hp
        rcases hg p hp with heq | ⟨_, heq⟩
        · rw [heq]
          exact ⟨rfl, rfl, rfl, rfl⟩
        · rw [heq]
          exact ⟨rfl, rfl, rfl, rfl⟩
      have hnodup' : (s.objects.map (·.id)).Nodup := by
        rw [hs, List.map_map]
        refine (List.map_congr_left fun p hp => ?_) ▸ hnodup
        exact (hshape p hp).1.symm
      obtain ⟨hid, hlabel, hent, _⟩ := hshape o ho
      have hkeep := objects_keep hc hnodup' (o := g o) (by rw [hs]; exact List.mem_map_of_mem ho)
        (hent.trans (hentity o ho)) (fun d hd hdstored k hk hsame => by
          rw [hs] at hd
          obtain ⟨p, hp, rfl⟩ := List.mem_map.mp hd
          have hp' : T p ∧ (g p).key = some p.label := by
            rcases hg p hp with heq | ⟨hTp, heq⟩
            · rw [heq] at hdstored ⊢
              exact hstored p hp hdstored
            · rw [heq]
              exact ⟨hTp, rfl⟩
          obtain rfl := Option.some.inj (hp'.2.symm.trans hk)
          rw [hlabel] at hsame
          rw [hapart p hp o ho hp'.1 hTo hsame])
      rw [hid, hs, List.map_map] at hkeep
      refine (ih (fun i hi => hids i (List.mem_cons_of_mem o.id hi)) (g := fun p =>
        if p.id = o.id then p.kept else g p) (fun p hp => ?_) (hkeep.trans ?_)).trans ?_
      · by_cases heq : p.id = o.id
        · obtain rfl := List.inj_on_of_nodup_map hnodup hp ho heq
          exact Or.inr ⟨hTo, by simp⟩
        · simpa [heq] using hg p hp
      · refine List.map_congr_left fun p hp => ?_
        obtain ⟨hpid, _, _, hpkept⟩ := hshape p hp
        rw [Function.comp_apply, hpid, hpkept]
      · refine List.map_congr_left fun p hp => ?_
        by_cases heq : p.id = o.id
        · simp [heq]
        · simp [heq]

theorem rows_keep (c : Surroundings) (s : Session) (id : Nat) : (c.keep s id).rows = s.rows := by
  unfold keep
  cases s.object? id with
  | none => rfl
  | some o =>
      dsimp only
      cases s.storedAt? c (c.tableName o.entity) (c.ownKey o) with
      | none =>
          cases o.key.filter fun k => !k.same (c.ownKey o) with
          | none => rfl
          | some k => exact (objects_modifyInnermost s _).2
      | some d =>
          cases o.key.filter fun k => !k.same (c.ownKey o) with
          | none =>
              dsimp only
              split
              · rfl
              · rfl
          | some k =>
              dsimp only
              split
              · exact (objects_modifyInnermost s _).2
              · exact (objects_modifyInnermost _ _).2

theorem rows_conclude (c : Surroundings) (s : Session) : (c.conclude s).rows = s.rows := by
  have hkept (ids : List Nat) (u : Session) : (ids.foldl c.keep u).rows = u.rows := by
    induction ids generalizing u with
    | nil => rfl
    | cons id ids ih => exact (ih _).trans (rows_keep c u id)
  have hremoved (ids : List Nat) (u : Session) : (ids.foldl (fun s id =>
      s.modifyObject id fun o => { o with standing := .removed }) u).rows = u.rows := by
    induction ids generalizing u with
    | nil => rfl
    | cons id ids ih => exact ih _
  exact (objects_modifyInnermost _ _).2.trans ((hkept _ _).trans (hremoved _ _))

end Surroundings

namespace Session

/-- An object that is stored after a flush. -/
def Remains (s : Session) (o : Obj) : Prop :=
  o.id ∈ s.fresh ∨ o.standing = .stored ∧ o.id ∉ s.marked

/-- An object once the marked ones are removed. -/
def cleared (s : Session) (o : Obj) : Obj :=
  if o.id ∈ s.marked then { o with standing := .removed } else o

/-- An object after a flush. -/
def concluded (s : Session) (o : Obj) : Obj :=
  if o.id ∈ s.fresh ++ s.dirty.map (·.id) then o.kept else s.cleared o

theorem cleared_eq_self {s : Session} {o : Obj} (h : o.id ∉ s.marked) : s.cleared o = o := if_neg h

theorem cleared_shape (s : Session) (o : Obj) : (s.cleared o).id = o.id ∧
    (s.cleared o).label = o.label ∧ (s.cleared o).entity = o.entity ∧
    (s.cleared o).kept = o.kept := by
  unfold cleared
  split
  · exact ⟨rfl, rfl, rfl, rfl⟩
  · exact ⟨rfl, rfl, rfl, rfl⟩

/-- What is stored or new once the marked objects are removed remains. -/
theorem remains_of_cleared {s : Session} {o : Obj}
    (h : (s.cleared o).id ∈ s.fresh ∨ (s.cleared o).standing = .stored) : s.Remains o := by
  by_cases hmem : o.id ∈ s.marked
  · rcases h with hfresh | hstored
    · exact Or.inl ((s.cleared_shape o).1 ▸ hfresh)
    · simp [cleared, hmem] at hstored
  · rw [cleared_eq_self hmem] at h
    exact h.imp_right fun hstored => ⟨hstored, hmem⟩

end Session

namespace Surroundings

variable {c : Surroundings} {name : String} {t : Table} {x : Searchable} {s u v : Session}

theorem objects_conclude (hc : c.Replicates name t x) (hv : v.Sound)
    (hregular : ∀ o ∈ v.objects, o.Regular name t)
    (hknown : ∀ id ∈ v.fresh, ∃ o ∈ v.objects, o.id = id)
    (hapart : ∀ o ∈ v.objects, ∀ p ∈ v.objects, v.Remains o → v.Remains p →
      o.label.same p.label = true → o = p) :
    (c.conclude v).objects = v.objects.map v.concluded := by
  have hnodup : ((v.objects.map v.cleared).map (·.id)).Nodup := by
    rw [List.map_map]
    exact (List.map_congr_left fun o _ => (v.cleared_shape o).1) ▸ hv.nodup
  have hkept := objects_foldl_keep (s := v.marked.foldl (fun s id =>
      s.modifyObject id fun o => { o with standing := .removed }) v) hc
    (T := fun o => o.id ∈ v.fresh ∨ o.standing = .stored) (g := id) hnodup ?entity ?apart ?stored
    (v.fresh ++ v.dirty.map (·.id)) ?ids (fun _ _ => Or.inl rfl) ?marked
  · refine (Session.objects_modifyInnermost _ _).1.trans (hkept.trans ?_)
    rw [List.map_map]
    refine List.map_congr_left fun o ho => ?_
    obtain ⟨hid, _, _, hsame⟩ := v.cleared_shape o
    rw [Function.comp_apply, hid, hsame]
    rfl
  case entity =>
    intro p hp
    obtain ⟨o, ho, rfl⟩ := List.mem_map.mp hp
    exact (v.cleared_shape o).2.2.1.trans (hregular o ho).entity
  case apart =>
    intro a ha b hb hTa hTb hsame
    obtain ⟨o, ho, rfl⟩ := List.mem_map.mp ha
    obtain ⟨p, hp, rfl⟩ := List.mem_map.mp hb
    rw [(v.cleared_shape o).2.1, (v.cleared_shape p).2.1] at hsame
    rw [hapart o ho p hp (Session.remains_of_cleared hTa) (Session.remains_of_cleared hTb) hsame]
  case stored =>
    intro a ha hstored
    obtain ⟨o, ho, rfl⟩ := List.mem_map.mp ha
    have hnot : o.id ∉ v.marked := fun hmem => by simp [Session.cleared, hmem] at hstored
    rw [Session.cleared_eq_self hnot] at hstored ⊢
    exact ⟨Or.inr hstored, (hregular o ho).key_eq hstored⟩
  case ids =>
    intro id hid
    rcases List.mem_append.mp hid with hfresh | hdirty
    · obtain ⟨o, ho, rfl⟩ := hknown id hfresh
      obtain ⟨hid, _⟩ := v.cleared_shape o
      exact ⟨v.cleared o, List.mem_map_of_mem ho, hid, Or.inl (hid ▸ hfresh)⟩
    · obtain ⟨o, ho, rfl⟩ := List.mem_map.mp hdirty
      obtain ⟨⟨hmem, hstored, hnot⟩, _⟩ := Session.Regular.isLive_of_dirty ho
      refine ⟨v.cleared o, List.mem_map_of_mem hmem, (v.cleared_shape o).1, Or.inr ?_⟩
      rw [Session.cleared_eq_self hnot]
      exact hstored
  case marked =>
    rw [List.map_id]
    exact Session.objects_foldl_removed v.marked v

end Surroundings

namespace Session

/-- From `s` to `t` a new object got the id of an object that was removed. -/
def Reuses (s t : Session) : Prop :=
  ∃ o ∈ t.objectsOf s.fresh, ∃ d ∈ t.objectsOf s.marked, d.label.same o.label = true

end Session

namespace Surroundings

open Session

variable {c : Surroundings} {name : String} {t : Table} {x : Searchable} {s u v : Session}

namespace Queues

/-- The objects show the same ids when the flush is over. -/
theorem object?_conclude (h : Queues c t s u v) (hc : c.Replicates name t x)
    (hs : s.Regular name t) {o : Obj} (ho : u.object? o.id = some o) :
    ∃ p, (c.conclude v).object? o.id = some p ∧ p.id = o.id ∧ p.label = o.label := by
  have hsettled := settles_conclude c v
  have hrel := object?_of_forall₂ hsettled.objects (fun o p hop => hop.1) o.id
  rw [object?_congr (h.objects_eq hc hs), ho] at hrel
  cases hp : (c.conclude v).object? o.id with
  | none =>
      rw [hp] at hrel
      cases hrel
  | some p =>
      rw [hp] at hrel
      cases hrel with
      | some hop => exact ⟨p, rfl, hop.1, by rw [Obj.label, Obj.label, hop.2.2]⟩

/-- Unless an id is reused, no new object shows the id of a removed one. -/
theorem fresh_apart (h : Queues c t s u v) (hc : c.Replicates name t x) (hs : s.Regular name t)
    (hreuses : ¬ s.Reuses (c.conclude v)) {o : Obj} (ho : u.object? o.id = some o)
    (hfresh : o.id ∈ s.fresh) {d : Obj} (hd : d ∈ s.doomed) : d.label.same o.label = false := by
  rw [Bool.eq_false_iff]
  intro hsame
  obtain ⟨hmem, _, hmarked, hstored⟩ := hs.doomed_spec hd
  have hdobject := h.stores.object?_eq hs hmem (hs.stored_notMem_fresh hmem hstored)
  obtain ⟨p, hp, hpid, hplabel⟩ := h.object?_conclude hc hs ho
  obtain ⟨e, he, heid, helabel⟩ := h.object?_conclude hc hs hdobject
  refine hreuses ⟨p, mem_objectsOf.mpr ⟨hpid ▸ hfresh, hpid.symm ▸ hp⟩, e,
    mem_objectsOf.mpr ⟨heid ▸ hmarked, heid.symm ▸ he⟩, ?_⟩
  rw [hplabel, helabel]
  exact hsame

/-- Unless an id is reused, every new object is a newcomer. -/
theorem newcomer_of_mem_fresh (h : Queues c t s u v) (hc : c.Replicates name t x)
    (hs : s.Regular name t) (hreuses : ¬ s.Reuses (c.conclude v)) {o : Obj}
    (ho : u.object? o.id = some o) (hfresh : o.id ∈ s.fresh) :
    ∃ p ∈ s.newcomers, ∃ key, o = p.numbered key ∧ (∀ q, s.IsLive q → q.label.same key = false) ∧
      ∃ r, Row.find? u.rows t.name o.label = some r ∧ o.Shows r := by
  have hlabel := (h.stores.regular hc hs (h.sound hs) (mem_of_object?_eq_some ho).1).label
  obtain ⟨p, hp, hid⟩ := h.newcomer_of_fresh hs hfresh ho hlabel.refl fun d hd =>
    h.fresh_apart hc hs hreuses ho hfresh hd
  obtain ⟨key, hobject, _, hlive, hrow⟩ := h.stores.placed p hp
  rw [hid, ho] at hobject
  obtain rfl := Option.some.inj hobject
  refine ⟨p, hp, key, rfl, hlive, ?_⟩
  have hapart := fun d hd => h.fresh_apart hc hs hreuses ho hfresh (d := d) hd
  rw [Obj.label_numbered] at hapart ⊢
  exact hrow hapart

theorem frame (h : Queues c t s u v) (hs : s.Regular name t) :
    v.fresh = s.fresh ∧ v.marked = s.marked ∧ v.rows = u.rows ∧ v.Sound := by
  obtain ⟨hreads, _⟩ := c.collect_queued h.collect (h.sound hs) h.stack_ne_nil
  exact ⟨hreads.fresh.trans h.works.fresh, hreads.marked.trans h.works.marked, hreads.rows,
    hreads.stays.sound (h.sound hs)⟩

/-- What remains is new, or it was live before. -/
theorem fresh_or_live (h : Queues c t s u v) (hc : c.Replicates name t x) (hs : s.Regular name t)
    {o : Obj} (ho : o ∈ v.objects) (hremains : v.Remains o) :
    o.id ∈ s.fresh ∧ u.object? o.id = some o ∨ s.IsLive o := by
  obtain ⟨hfresh, hmarked, _⟩ := h.frame hs
  rw [h.objects_eq hc hs] at ho
  rcases hremains with hnew | ⟨hstored, hnot⟩
  · exact Or.inl ⟨hfresh ▸ hnew, (h.sound hs).object?_eq ho⟩
  · have hold := h.stores.stored hs (h.sound hs) ho hstored
    exact Or.inr ⟨(mem_of_object?_eq_some hold).1, hstored, hmarked ▸ hnot⟩

/-- Unless an id is reused, what remains shows a row of its own. -/
theorem remains_shows (h : Queues c t s u v) (hc : c.Replicates name t x) (hs : s.Regular name t)
    (hreuses : ¬ s.Reuses (c.conclude v)) {o : Obj} (ho : o ∈ v.objects)
    (hremains : v.Remains o) : ∃ r, Row.find? u.rows t.name o.label = some r ∧ o.Shows r := by
  rcases h.fresh_or_live hc hs ho hremains with ⟨hfresh, hobject⟩ | hlive
  · obtain ⟨_, _, _, _, _, hrow⟩ := h.newcomer_of_mem_fresh hc hs hreuses hobject hfresh
    exact hrow
  · exact h.stores.live o hlive

theorem remains_apart (h : Queues c t s u v) (hc : c.Replicates name t x) (hs : s.Regular name t)
    (hreuses : ¬ s.Reuses (c.conclude v)) {o p : Obj} (ho : o ∈ v.objects) (hp : p ∈ v.objects)
    (horemains : v.Remains o) (hpremains : v.Remains p) (hsame : o.label.same p.label = true) :
    o = p := by
  have holabel : o.label.IsId := by
    rw [h.objects_eq hc hs] at ho
    exact (h.stores.regular hc hs (h.sound hs) ho).label
  rcases h.fresh_or_live hc hs ho horemains with ⟨hofresh, hoobject⟩ | holive
  · obtain ⟨o', ho', key, rfl, hkey, _⟩ := h.newcomer_of_mem_fresh hc hs hreuses hoobject hofresh
    rcases h.fresh_or_live hc hs hp hpremains with ⟨hpfresh, hpobject⟩ | hplive
    · obtain ⟨p', hp', key', rfl, _⟩ := h.newcomer_of_mem_fresh hc hs hreuses hpobject hpfresh
      have hid := h.stores.apart o' ho' p' hp' _ _ hoobject hpobject hsame
      rw [h.objects_eq hc hs] at ho hp
      exact (h.sound hs).eq_of_id_eq ho hp hid
    · have hnot := hkey p hplive
      rw [Obj.label_numbered] at holabel hsame
      rw [holabel.symm hsame] at hnot
      cases hnot
  · rcases h.fresh_or_live hc hs hp hpremains with ⟨hpfresh, hpobject⟩ | hplive
    · obtain ⟨p', hp', key', rfl, hkey, _⟩ := h.newcomer_of_mem_fresh hc hs hreuses hpobject hpfresh
      have hnot := hkey o holive
      rw [Obj.label_numbered] at hsame
      rw [hsame] at hnot
      cases hnot
    · exact hs.distinct o holive.1 p hplive.1 holive.2.1 hplive.2.1 hsame

theorem objects_conclude (h : Queues c t s u v) (hc : c.Replicates name t x)
    (hs : s.Regular name t) (hreuses : ¬ s.Reuses (c.conclude v)) :
    (c.conclude v).objects = v.objects.map v.concluded := by
  obtain ⟨hfresh, _, _, hsound⟩ := h.frame hs
  have hobjects := h.objects_eq hc hs
  refine Surroundings.objects_conclude hc hsound (fun o ho => ?_) (fun id hid => ?_)
    fun o ho p hp => h.remains_apart hc hs hreuses ho hp
  · rw [hobjects] at ho
    exact h.stores.regular hc hs (h.sound hs) ho
  · -- the objects are numbered, and the numbers of new ones are among them
    have hlength : u.objects.length = s.objects.length :=
      (h.works.objects hs.sound).length_eq.symm
    have hmem : id ∈ v.objects.map (·.id) := by
      rw [hsound.numbered, List.mem_range, hobjects, hlength]
      exact hs.known id (List.mem_append_left _ (hfresh ▸ hid))
    obtain ⟨o, ho, hoid⟩ := List.mem_map.mp hmem
    exact ⟨o, ho, hoid⟩

end Queues

end Surroundings

/-- An object of a regular session is regular after the flush. -/
theorem Session.regular_concluded {name : String} {t : Table} {o : Obj} (v : Session)
    (h : o.Regular name t) : (v.concluded o).Regular name t := by
  unfold concluded
  split
  · refine ⟨h.entity, h.present, h.names, h.label, fun k hk => ?_, fun _ => rfl, fun _ => rfl⟩
    obtain rfl := Option.some.inj hk
    exact ⟨rfl, List.not_mem_nil⟩
  · unfold cleared
    split
    · exact ⟨h.entity, h.present, h.names, h.label, h.keyed, nofun, h.calm⟩
    · exact h

/-- What is stored after a flush remains from before, and it has no changes. -/
theorem Session.remains_of_concluded {name : String} {t : Table} {v : Session} {o : Obj}
    (hv : v.Sound) (ho : o ∈ v.objects) (h : o.Regular name t)
    (hstored : (v.concluded o).standing = .stored) :
    v.Remains o ∧ (v.concluded o).values = o.values ∧ (v.concluded o).changes = [] := by
  unfold concluded at hstored ⊢
  split
  · next hids =>
    refine ⟨?_, rfl, rfl⟩
    rcases List.mem_append.mp hids with hfresh | hdirty
    · exact Or.inl hfresh
    · obtain ⟨p, hp, hid⟩ := List.mem_map.mp hdirty
      obtain ⟨⟨hpmem, hpstored, hpmarked⟩, _⟩ := Session.Regular.isLive_of_dirty hp
      obtain rfl := hv.eq_of_id_eq hpmem ho hid
      exact Or.inr ⟨hpstored, hpmarked⟩
  · next hids =>
    rw [if_neg hids] at hstored
    have hnot : o.id ∉ v.marked := fun hmem => by simp [cleared, hmem] at hstored
    rw [cleared_eq_self hnot] at hstored ⊢
    refine ⟨Or.inr ⟨hstored, hnot⟩, rfl, h.calm ?_⟩
    -- a stored object with changes would be among the dirty ones
    rw [Bool.eq_false_iff]
    intro hmodified
    refine hids (List.mem_append_right _ (List.mem_map_of_mem (List.mem_filter.mpr ⟨ho, ?_⟩)))
    simpa [hstored, hmodified] using hnot

namespace Surroundings

open Session

variable {c : Surroundings} {name : String} {t : Table} {x : Searchable} {s u v : Session}

/-- Unless an id is reused, no object that waits to be stored has the id of a removed one. -/
theorem Queues.pending_apart (h : Queues c t s u v) (hc : c.Replicates name t x)
    (hs : s.Regular name t) (hreuses : ¬ s.Reuses (c.conclude v)) {o d : Obj}
    (ho : o ∈ s.pending) (hd : d ∈ s.doomed) : d.label.same o.label = false := by
  by_cases hnew : o.id ∈ s.newcomers.map (·.id)
  · obtain ⟨p, hp, hid⟩ := List.mem_map.mp hnew
    obtain ⟨hppending, hpnew⟩ := List.mem_filter.mp hp
    obtain rfl := hs.sound.eq_of_id_eq (hs.pending_spec hppending).1 (hs.pending_spec ho).1 hid
    rw [Bool.not_eq_true', List.any_eq_false] at hpnew
    simpa using hpnew d hd
  · obtain ⟨_, hobject, hfresh, _⟩ := hs.pending_spec ho
    exact h.fresh_apart hc hs hreuses ((h.stores.others o.id hnew).trans hobject) hfresh hd

/-- Unless an id is reused, the rows of removed objects are gone. -/
theorem Queues.find?_doomed (h : Queues c t s u v) (hc : c.Replicates name t x)
    (hs : s.Regular name t) (hreuses : ¬ s.Reuses (c.conclude v)) {d : Obj} (hd : d ∈ s.doomed)
    {k : Value} (hk : d.label.same k = true) : Row.find? u.rows t.name k = none :=
  h.stores.gone d hd (fun _ ho => h.pending_apart hc hs hreuses ho hd) k hk

/-- Unless an id is reused, a flush leaves a regular session. -/
theorem Queues.regular_conclude (h : Queues c t s u v) (hc : c.Replicates name t x)
    (hs : s.Regular name t) (hreuses : ¬ s.Reuses (c.conclude v)) :
    (c.conclude v).Regular name t := by
  obtain ⟨hfresh, hmarked, hrows, hsound⟩ := h.frame hs
  have hobjects := h.objects_conclude hc hs hreuses
  have hregular : ∀ o ∈ v.objects, o.Regular name t := by
    rw [h.objects_eq hc hs]
    exact fun o ho => h.stores.regular hc hs (h.sound hs) ho
  have hshown : ∀ p ∈ (c.conclude v).objects, p.standing = .stored → ∃ o ∈ v.objects,
      p = v.concluded o ∧ v.Remains o ∧ p.values = o.values ∧ p.changes = [] := by
    intro p hp hstored
    rw [hobjects] at hp
    obtain ⟨o, ho, rfl⟩ := List.mem_map.mp hp
    exact ⟨o, ho, rfl, remains_of_concluded hsound ho (hregular o ho) hstored⟩
  refine { sound := ?sound, rows := ?rows, objects := ?objects, fresh := List.nodup_nil,
           known := fun id hid => absurd hid List.not_mem_nil,
           marked := fun o ho => absurd ho List.not_mem_nil, distinct := ?distinct,
           lives := ?lives }
  case sound =>
    exact (settles_conclude c v).sound (hsound.mono fun id hid => absurd hid List.not_mem_nil)
  case rows =>
    rw [rows_conclude, hrows]
    exact h.stores.tabled
  case objects =>
    intro p hp
    rw [hobjects] at hp
    obtain ⟨o, ho, rfl⟩ := List.mem_map.mp hp
    exact v.regular_concluded (hregular o ho)
  case distinct =>
    intro a ha b hb hastored hbstored hsame
    obtain ⟨o, ho, rfl, horemains, hovalues, _⟩ := hshown a ha hastored
    obtain ⟨p, hp, rfl, hpremains, hpvalues, _⟩ := hshown b hb hbstored
    rw [Obj.label, Obj.label, hovalues, hpvalues] at hsame
    rw [h.remains_apart hc hs hreuses ho hp horemains hpremains hsame]
  case lives =>
    rintro a ⟨ha, hstored, _⟩
    obtain ⟨o, ho, rfl, hremains, hvalues, hchanges⟩ := hshown a ha hstored
    obtain ⟨r, hr, hshows⟩ := h.remains_shows hc hs hreuses ho hremains
    rw [rows_conclude, hrows, Obj.label, hvalues]
    refine ⟨r, hr, Obj.Tracks.of_shows (fun a => ?_) hchanges⟩
    rw [hvalues]
    exact hshows a

end Surroundings

end Typeahead
