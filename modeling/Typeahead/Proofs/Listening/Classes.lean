import Typeahead.Proofs.Listening.Committing
import Typeahead.Session.Running

/-!
# Sessions over declared classes

Every class has a name of its own and extends a class that was declared before it.  Then every
object of a session belongs to a table that a flush goes through, and the numbers that wait for
a flush are those of objects: `Session.Seated`, which holds after every run.
-/

namespace Typeahead

namespace Catalog

/-- Classes have names of their own, and extend classes that were declared before them. -/
def WellDeclared : Catalog → Prop
  | [] => True
  | e :: earlier => e.model.name ∉ earlier.map (·.model.name) ∧
      (∀ p ∈ e.parent, lineage earlier p ≠ []) ∧ WellDeclared earlier

theorem insertName_perm (name : String) (names : List String) :
    (insertName name names).Perm (name :: names) := by
  induction names with
  | nil => exact List.Perm.refl _
  | cons n names ih =>
      rw [insertName]
      split
      · exact List.Perm.refl _
      · exact (ih.cons n).trans (List.Perm.swap name n names)

/-- The tables are those of the classes that extend no other one. -/
theorem baseNames_perm (c : Catalog) :
    c.baseNames.Perm ((c.filter fun e => e.parent.isNone).map (·.model.name)) := by
  unfold baseNames
  generalize c.filter (fun e => e.parent.isNone) = roots
  induction roots with
  | nil => exact List.Perm.refl _
  | cons e roots ih => exact (insertName_perm _ _).trans (ih.cons _)

theorem WellDeclared.nodup {c : Catalog} (h : c.WellDeclared) : (c.map (·.model.name)).Nodup := by
  induction c with
  | nil => exact List.nodup_nil
  | cons e earlier ih =>
      obtain ⟨hname, _, hearlier⟩ := h
      exact List.nodup_cons.mpr ⟨hname, ih hearlier⟩

theorem WellDeclared.nodup_baseNames {c : Catalog} (h : c.WellDeclared) : c.baseNames.Nodup := by
  refine (baseNames_perm c).nodup_iff.mpr (h.nodup.sublist ?_)
  exact List.filter_sublist.map _

/-- The topmost class of a lineage extends no other one. -/
theorem WellDeclared.parent_of_getLast? {c : Catalog} (h : c.WellDeclared) {name : String}
    {e : Entity} (he : (c.lineage name).getLast? = some e) : e.parent = none := by
  induction c generalizing name with
  | nil => cases he
  | cons d earlier ih =>
      obtain ⟨_, hparents, hearlier⟩ := h
      rw [lineage] at he
      cases hname : d.model.name == name with
      | false =>
          rw [hname] at he
          exact ih hearlier he
      | true =>
          rw [hname, if_pos rfl] at he
          cases hparent : d.parent with
          | none =>
              rw [hparent] at he
              obtain rfl : d = e := by simpa using he
              exact hparent
          | some p =>
              rw [hparent] at he
              have hne := hparents p (by rw [hparent]; rfl)
              rw [List.getLast?_cons_of_ne_nil hne] at he
              exact ih hearlier he

/-- A flush goes through the table of every declared class. -/
theorem WellDeclared.baseName_mem {c : Catalog} (h : c.WellDeclared) {name : String}
    (hname : c.lineage name ≠ []) : c.baseName name ∈ c.baseNames := by
  rw [(baseNames_perm c).mem_iff]
  obtain ⟨e, he⟩ := Option.isSome_iff_exists.mp (List.getLast?_isSome.mpr hname)
  rw [baseName, he]
  refine List.mem_map.mpr ⟨e, List.mem_filter.mpr ⟨?_, ?_⟩, rfl⟩
  · exact mem_of_mem_lineage (List.mem_of_getLast? he)
  · rw [h.parent_of_getLast? he]
    rfl

end Catalog

namespace Session

/-- The objects with their classes are the same, and what waits for a flush waited before or is
one of the objects. -/
structure Stands (s t : Session) : Prop where
  labels : t.objects.map (fun o => (o.id, o.entity)) = s.objects.map fun o => (o.id, o.entity)
  waiting : ∀ id ∈ t.fresh ++ t.marked, id ∈ s.fresh ++ s.marked ∨ id ∈ s.objects.map (·.id)

/-- A sound session stays sound and keeps its objects. -/
def Abides (s t : Session) : Prop := s.Sound → t.Sound ∧ Stands s t

theorem Stands.ids_eq {s t : Session} (h : Stands s t) :
    t.objects.map (·.id) = s.objects.map (·.id) := by
  have hids := congrArg (List.map Prod.fst) h.labels
  rwa [List.map_map, List.map_map] at hids

theorem Stands.refl (s : Session) : Stands s s := ⟨rfl, fun _ => Or.inl⟩

theorem Stands.trans {s t u : Session} (h : Stands s t) (k : Stands t u) : Stands s u where
  labels := k.labels.trans h.labels
  waiting id hid := by
    rcases k.waiting id hid with hold | hknown
    · exact h.waiting id hold
    · rw [h.ids_eq] at hknown
      exact Or.inr hknown

instance : IsPreorder Session Abides where
  refl s hs := ⟨hs, Stands.refl s⟩
  trans _ _ _ h k hs := ⟨(k (h hs).1).1, (h hs).2.trans (k (h hs).1).2⟩

section Abides

variable {s t : Session}

theorem stands_of_forall₂ {R : Obj → Obj → Prop} (h : List.Forall₂ R s.objects t.objects)
    (hR : ∀ o p, R o p → p.id = o.id ∧ p.entity = o.entity)
    (hwaiting : ∀ id ∈ t.fresh ++ t.marked, id ∈ s.fresh ++ s.marked) : Stands s t where
  labels := by
    have hlabels := map_filter_eq_of_forall₂ (p := fun _ => true) (q := fun _ => true)
      (f := fun o : Obj => (o.id, o.entity)) (g := fun o : Obj => (o.id, o.entity)) h
      (fun _ _ _ _ => rfl) fun o p hop => by rw [(hR o p hop).1, (hR o p hop).2]
    simpa using hlabels
  waiting id hid := Or.inl (hwaiting id hid)

theorem abides_of_map {f : Obj → Obj} (hsound : s.Sound → t.Sound)
    (hobjects : t.objects = s.objects.map f)
    (hf : ∀ o ∈ s.objects, (f o).id = o.id ∧ (f o).entity = o.entity)
    (hwaiting : ∀ id ∈ t.fresh ++ t.marked,
      id ∈ s.fresh ++ s.marked ∨ id ∈ s.objects.map (·.id)) : Abides s t := by
  refine fun hs => ⟨hsound hs, ?_, hwaiting⟩
  rw [hobjects, List.map_map]
  exact List.map_congr_left fun o ho => by rw [Function.comp_apply, (hf o ho).1, (hf o ho).2]

theorem abides_of_eq (hobjects : t.objects = s.objects) (hfresh : t.fresh = s.fresh)
    (hmarked : t.marked = s.marked) : Abides s t := by
  refine abides_of_map (f := id) (fun hs => ?_) (by rw [hobjects, List.map_id])
    (fun _ _ => ⟨rfl, rfl⟩) fun id hid => ?_
  · rw [Sound, hfresh]
    exact hs.of_objects_eq hobjects
  · rw [hfresh, hmarked] at hid
    exact Or.inl hid

theorem abides_begin (s : Session) : Abides s s.begin :=
  abides_of_eq s.begin_objects s.begin_fresh s.begin_marked

theorem abides_put {o p : Obj} (ho : s.object? p.id = some o) (hp : p.entity = o.entity)
    (hsound : s.Sound → p.Sound s.fresh) : Abides s (s.modifyObject p.id fun _ => p) := by
  intro hs
  have hobjects := forall₂_put (p := p) (R := fun o p => p.id = o.id ∧ p.entity = o.entity) hs
    (fun _ => ⟨rfl, rfl⟩) ho ⟨(mem_of_object?_eq_some ho).2.symm, hp⟩
  exact ⟨hs.put (hsound hs), stands_of_forall₂ hobjects (fun _ _ hop => hop) fun _ => id⟩

theorem restoredObject_label (c : Surroundings) (t : Transaction) (nested : Bool) (s : Session)
    (o : Obj) : (restoredObject c t nested s o).id = o.id ∧
      (restoredObject c t nested s o).entity = o.entity := by
  have hreturned : (s.returned t o).id = o.id ∧ (s.returned t o).entity = o.entity := by
    unfold returned
    cases keyBefore? t o with
    | some key => exact ⟨rfl, rfl⟩
    | none =>
        dsimp only
        split
        · exact ⟨rfl, rfl⟩
        · exact ⟨rfl, rfl⟩
  unfold restoredObject
  split
  · unfold forgotten
    cases keyBefore? t o with
    | some key => exact ⟨rfl, rfl⟩
    | none => exact ⟨rfl, rfl⟩
  · dsimp only
    split
    · exact hreturned
    · exact hreturned

/-- Objects are taken back to where they were before a transaction. -/
theorem abides_restore (c : Surroundings) (x : Transaction) (nested : Bool) {u : Session}
    (hu : u.objects = s.objects) (hsound : s.Sound → t.Sound)
    (hobjects : t.objects = (restore c x nested u).objects) (hfresh : t.fresh = [])
    (hmarked : t.marked = []) : Abides s t := by
  refine abides_of_map (f := restoredObject c x nested u) hsound ?_
    (fun o _ => restoredObject_label c x nested u o) fun id hid => ?_
  · rw [hobjects, restore, hu]
  · rw [hfresh, hmarked] at hid
    cases hid

theorem abides_breakInnermost (c : Surroundings) (s : Session) :
    Abides s (breakInnermost c s) := by
  unfold breakInnermost
  cases hstack : s.stack with
  | nil => exact refl_of Abides s
  | cons x outer =>
      refine abides_restore c x (!outer.isEmpty) (u := { s with rows := x.before }) rfl
        (fun hs => ?_) rfl rfl rfl
      have hbroken := sound_breakInnermost hs c
      rw [breakInnermost, hstack] at hbroken
      exact hbroken

theorem marked_pop (s : Session) : s.pop.marked = s.marked := by
  unfold pop
  rcases s.stack with _ | ⟨t, _ | ⟨u, rest⟩⟩
  · rfl
  · rfl
  · rfl

theorem abides_pop (s : Session) : Abides s s.pop :=
  abides_of_eq (objects_pop s).1 (objects_pop s).2 (marked_pop s)

theorem abides_undoInnermost (c : Surroundings) (s : Session) :
    Abides s (s.undoInnermost c) := by
  have hrestore (x : Transaction) (nested : Bool) {u : Session} (hu : u.objects = s.objects) :
      Abides s (restore c x nested u) :=
    abides_restore c x nested hu (fun hs => sound_restore hs c x nested hu) rfl rfl rfl
  have hdrop (id : Nat) (u : Session) : Abides u (dropWrites id u).pop := by
    have hdropped : Abides u (dropWrites id u) := abides_of_eq rfl rfl rfl
    exact trans_of Abides hdropped (abides_pop _)
  unfold undoInnermost
  cases s.stack with
  | nil => exact refl_of Abides s
  | cons x outer =>
      refine trans_of Abides ?_ (hdrop x.id _)
      cases x.state with
      | active => exact hrestore x _ rfl
      | broken =>
          dsimp only
          split
          · exact refl_of Abides s
          · exact hrestore x _ rfl
      | committed =>
          dsimp only
          split
          · exact refl_of Abides s
          · exact hrestore x _ rfl

theorem abides_undoAll (c : Surroundings) (s : Session) : Abides s (s.undoAll c) := by
  unfold undoAll
  generalize s.stack = stack
  induction stack generalizing s with
  | nil => exact refl_of Abides s
  | cons t stack ih => exact trans_of Abides (abides_undoInnermost c s) (ih _)

theorem abides_close (s : Session) : Abides s s.close := by
  refine abides_of_map (f := released) sound_close rfl (fun o _ => ?_) fun id hid => nomatch hid
  unfold released
  cases o.standing <;> exact ⟨rfl, rfl⟩

theorem tolerates_abides (c : Surroundings) : c.Tolerates Abides where
  permits ids :=
    { reads := fun h _ hs => ⟨h.stays.sound hs, stands_of_forall₂ (h.objects hs)
        (fun _ _ hop => ⟨(hop.carries []).id, (hop.carries []).entity⟩)
        (by rw [h.fresh, h.marked]; exact fun _ => id)⟩
      rows := fun _ _ => abides_of_eq rfl rfl rfl
      numbers := fun {s o} t key ho hid => by
        refine abides_put (p := { o with values := Surroundings.numberedValues o t key }) ho rfl
          fun hs => ?_
        have hcarries : Obj.Carries ids o
            { o with values := Surroundings.numberedValues o t key } :=
          ⟨rfl, rfl, rfl, rfl, rfl, rfl, fun a => Surroundings.has_numberedValues t key,
            fun hnew => absurd hid hnew⟩
        exact hcarries.sound (hs.objects o (mem_of_object?_eq_some ho).1) }
  begins := abides_begin
  sends _ _ := abides_of_eq rfl rfl rfl
  queues _ _ := abides_of_eq rfl rfl rfl
  concludes s hs := by
    have hsettled := settles_conclude c s
    refine ⟨hsettled.sound (hs.mono fun id hid => absurd hid List.not_mem_nil), ?_⟩
    exact stands_of_forall₂ hsettled.objects (fun _ _ hop => ⟨hop.1, hop.2.1⟩)
      fun id hid => nomatch hid
  breaks := abides_breakInnermost c
  merges s := by
    obtain ⟨_, _, _, hobjects, hfresh, hmarked⟩ := mergeInnermost_keeps s
    exact abides_of_eq hobjects hfresh hmarked
  pushes _ _ := abides_of_eq rfl rfl rfl

end Abides

end Session

namespace Surroundings

open Session

variable (c : Surroundings) {s : Session}

/-- An object that does not wait to be stored is taken among the stored ones. -/
theorem abides_attach {o : Obj} (ho : s.object? o.id = some o)
    (hstanding : s.Sound → o.standing ≠ .pending) : Abides s (c.attach o s).2 := by
  refine fun hs => ⟨(c.attach_idles ho hstanding).sound hs, ?_⟩
  unfold attach
  rw [Exec.bind_apply, Exec.modify_apply]
  dsimp only
  rw [Exec.bind_apply, Exec.get_apply]
  dsimp only
  have hbegin := abides_begin s hs
  split
  · exact hbegin.2
  · have hobjects := forall₂_put (p := { o with standing := .stored })
      (R := fun o p => p.id = o.id ∧ p.entity = o.entity) hbegin.1 (fun _ => ⟨rfl, rfl⟩)
      ((object?_begin s o.id).trans ho) ⟨rfl, rfl⟩
    exact hbegin.2.trans (stands_of_forall₂ hobjects (fun _ _ hop => hop) fun _ => id)

theorem abides_readd (object : String) : Exec.Follows Abides (c.readd object) := by
  refine Exec.follows_bind (Exec.follows_named object) fun id s => ?_
  rw [Exec.bind_apply, Exec.object_apply]
  cases ho : s.object? id with
  | none => exact refl_of Abides s
  | some o =>
      obtain rfl : o.id = id := (mem_of_object?_eq_some ho).2
      have hmem := (mem_of_object?_eq_some ho).1
      dsimp only
      cases hstanding : o.standing with
      | pending => exact refl_of Abides s
      | removed => exact refl_of Abides s
      | displaced => exact c.abides_attach ho fun _ => by rw [hstanding]; decide
      | detached => exact c.abides_attach ho fun _ => by rw [hstanding]; decide
      | stored =>
          refine abides_of_map (f := id) (fun hs => ?_) ?_ (fun _ _ => ⟨rfl, rfl⟩) fun id hid => ?_
          · exact (abides_begin s hs).1.of_objects_eq rfl
          · rw [List.map_id]
            exact s.begin_objects
          · rw [← s.begin_fresh]
            rcases List.mem_append.mp hid with hid | hid
            · exact Or.inl (List.mem_append_left _ hid)
            · exact Or.inl (List.mem_append_right _ (List.mem_filter.mp hid).1)
      | loose =>
          refine abides_of_map
            (f := fun p => if p.id == o.id then { p with standing := .pending } else p)
            (fun hs => (sound_pending hs ho hstanding).of_objects_eq rfl) rfl (fun p _ => ?_)
            fun id hid => ?_
          · split
            · exact ⟨rfl, rfl⟩
            · exact ⟨rfl, rfl⟩
          · rw [← s.begin_marked]
            rcases List.mem_append.mp hid with hid | hid
            · rcases List.mem_append.mp hid with hid | hid
              · exact Or.inl (List.mem_append_left _ hid)
              · rw [List.mem_singleton.mp hid]
                exact Or.inr (List.mem_map_of_mem hmem)
            · exact Or.inl (List.mem_append_right _ hid)

theorem abides_delete (object : String) : Exec.Follows Abides (c.delete object) := by
  refine Exec.follows_bind (Exec.follows_named object) fun id s => ?_
  rw [Exec.bind_apply, Exec.object_apply]
  cases ho : s.object? id with
  | none => exact refl_of Abides s
  | some o =>
      obtain rfl : o.id = id := (mem_of_object?_eq_some ho).2
      have hmem := (mem_of_object?_eq_some ho).1
      dsimp only
      split
      · exact refl_of Abides s
      · next hkey =>
        rw [Exec.bind_apply, Exec.get_apply]
        dsimp only
        split
        · exact refl_of Abides s
        · have hattach : Abides s (c.attach o s).2 := c.abides_attach ho fun hs hpending => by
            rw [(hs.objects o hmem).keyless (Or.inl hpending)] at hkey
            exact hkey rfl
          intro hs
          rw [Exec.bind_apply]
          rcases hu : c.attach o s with ⟨r, u⟩
          rw [hu] at hattach
          cases r with
          | error e => exact hattach hs
          | ok a =>
              obtain ⟨husound, hstands⟩ := hattach hs
              refine ⟨husound.of_objects_eq rfl, hstands.labels, fun id hid => ?_⟩
              dsimp only [Exec.modify_apply] at hid
              rw [← List.append_assoc] at hid
              rcases List.mem_append.mp hid with hid | hid
              · exact hstands.waiting id hid
              · rw [List.mem_singleton.mp hid]
                exact Or.inr (List.mem_map_of_mem hmem)

theorem abides_set (object attr : String) (value : Value) :
    Exec.Follows Abides (c.set object attr value) := by
  refine Exec.follows_bind (Exec.follows_named object) fun id s => ?_
  rw [Exec.bind_apply, Exec.object_apply]
  cases ho : s.object? id with
  | none => exact refl_of Abides s
  | some o =>
      obtain rfl : o.id = id := (mem_of_object?_eq_some ho).2
      dsimp only
      cases (c.catalog.table? o.entity).bind fun t => t.attribute? attr with
      | none =>
          refine abides_put (p := o.setExtra attr value) ho rfl fun hs => ?_
          have hold := hs.objects o (mem_of_object?_eq_some ho).1
          exact ⟨Obj.tracked_setExtra hold.tracked attr value, hold.keyless, hold.pending⟩
      | some column =>
          dsimp only
          generalize (if column.primaryKey then [attr] else []) = needed
          have hload := follows_load (tolerates_abides c |>.permits []) o.id needed
          refine Exec.bind_follows (hload s) fun p u h => ?_
          obtain ⟨_, _, hloaded⟩ := c.load_reads h
          have hp := (hloaded p rfl).1
          obtain ⟨hpmem, hpid⟩ := mem_of_object?_eq_some hp
          have hset {w : Session} (hpw : p ∈ w.objects) (hw : w.Sound) :
              (p.set attr value).Sound w.fresh :=
            ⟨Obj.tracked_set (hw.objects p hpw).tracked attr value, (hw.objects p hpw).keyless,
              (hw.objects p hpw).pending⟩
          have hput : u.object? (p.set attr value).id = some p := by rwa [← hpid] at hp
          split
          · refine trans_of Abides (abides_begin u) (abides_put (p := p.set attr value)
              ((object?_begin u _).trans hput) rfl (hset ?_))
            rw [u.begin_objects]
            exact hpmem
          · exact abides_put (p := p.set attr value) hput rfl (hset hpmem)

theorem abides_search (entity : String) (text : Value) (options : Options) :
    Exec.Follows Abides (c.search entity text options) := by
  unfold search
  cases c.catalog.searchable? entity with
  | none => exact Exec.follows_throw _
  | some x =>
      intro s
      dsimp only
      rw [Exec.exchange_apply]
      exact abides_of_eq rfl rfl rfl

theorem abides_rollbackTo (name : String) : Exec.Follows Abides (c.rollbackTo name) := by
  refine Exec.follows_bind (follows_savepoint name) fun id => Exec.follows_get_bind fun s => ?_
  split
  · have hdrop : Abides s (s.dropInside id) := abides_of_eq rfl rfl rfl
    exact trans_of Abides hdrop (abides_undoInnermost c _)
  · exact refl_of Abides s

theorem abides_leave (name : String) : Exec.Follows Abides (c.leave name) := by
  refine Exec.follows_bind (follows_savepoint name) fun id => Exec.follows_get_bind fun s => ?_
  cases s.stack.find? fun t => t.id == id with
  | none => exact refl_of Abides s
  | some t =>
      dsimp only
      split
      · have hdrop : Abides s (s.dropInside id) := abides_of_eq rfl rfl rfl
        exact trans_of Abides hdrop (abides_pop _)
      · exact c.abides_rollbackTo name s

theorem abides_rollback : Exec.Follows Abides c.rollback := by
  refine Exec.follows_get_bind fun s => ?_
  cases hstack : s.stack with
  | nil => exact refl_of Abides s
  | cons t rest =>
      dsimp only
      split
      · exact refl_of Abides s
      · exact abides_undoAll c s

theorem abides_settle : Exec.Follows Abides c.settle := by
  have hdeliver : Exec.Follows Abides c.deliver := by
    refine Exec.follows_get_bind fun s => ?_
    rw [Exec.bind_apply, Exec.set_apply]
    dsimp only
    obtain ⟨outcome, ws, hsend, _⟩ := c.forM_send_spec s.queue { s with queue := [] }
    rw [hsend]
    exact abides_of_eq rfl rfl rfl
  have hroot : Exec.Follows Abides c.deliverAtRoot := by
    refine Exec.follows_get_bind fun s => ?_
    split
    · exact refl_of Abides s
    · exact hdeliver s
  refine Exec.follows_bind (Exec.follows_modify fun s => ?_) fun _ => ?_
  · unfold modifyInnermost
    cases s.stack with
    | nil => exact refl_of Abides s
    | cons t rest => exact abides_of_eq rfl rfl rfl
  · exact Exec.follows_bind hroot fun _ => Exec.follows_modify abides_pop

theorem abides_commit : Exec.Follows Abides c.commit :=
  Exec.follows_bind (follows_prepare (tolerates_abides c)) fun _ => c.abides_settle

end Surroundings

namespace Session

/-- A session over declared classes: its objects are those of tables that a flush goes through,
and what waits for a flush are objects. -/
structure Seated (catalog : Catalog) (s : Session) : Prop where
  sound : s.Sound
  known : ∀ id ∈ s.fresh ++ s.marked, id ∈ s.objects.map (·.id)
  bases : ∀ o ∈ s.objects, catalog.baseName o.entity ∈ catalog.baseNames

theorem seated_empty (catalog : Catalog) : empty.Seated catalog :=
  ⟨sound_empty, fun _ h => (nomatch h), fun _ h => (nomatch h)⟩

theorem Seated.of_abides {catalog : Catalog} {s t : Session} (hs : s.Seated catalog)
    (h : Abides s t) : t.Seated catalog := by
  obtain ⟨hsound, hstands⟩ := h hs.sound
  refine ⟨hsound, fun id hid => ?_, fun p hp => ?_⟩
  · rw [hstands.ids_eq]
    rcases hstands.waiting id hid with hold | hknown
    · exact hs.known id hold
    · exact hknown
  · have hlabel : (p.id, p.entity) ∈ t.objects.map fun o => (o.id, o.entity) :=
      List.mem_map_of_mem hp
    rw [hstands.labels] at hlabel
    obtain ⟨o, ho, heq⟩ := List.mem_map.mp hlabel
    rw [← (Prod.mk.inj heq).2]
    exact hs.bases o ho

end Session

namespace Surroundings

open Session

variable {c : Surroundings} {s : Session}

theorem seated_add (hcatalog : c.catalog.WellDeclared) (object entity : String)
    (values : Options) (hs : s.Seated c.catalog) :
    ((c.add object entity values) s).2.Seated c.catalog := by
  have hsound := (c.follows_add object entity values s).sound hs.sound
  revert hsound
  unfold add
  cases hlineage : c.catalog.lineage entity with
  | nil => exact fun _ => hs
  | cons e rest =>
      have hdeclared : c.catalog.lineage entity ≠ [] := by
        rw [hlineage]
        exact List.cons_ne_nil e rest
      dsimp only
      cases e.model.table with
      | none => exact fun _ => hs
      | some t =>
          dsimp only
          split
          · refine fun hsound => ⟨hsound, fun id hid => ?_, fun o ho => ?_⟩
            · dsimp only [Exec.modify_apply] at hid ⊢
              rw [s.begin_marked] at hid
              rw [List.map_append]
              rcases List.mem_append.mp hid with hid | hid
              · rcases List.mem_append.mp hid with hid | hid
                · exact List.mem_append_left _ (hs.known id (List.mem_append_left _ hid))
                · exact List.mem_append_right _ hid
              · exact List.mem_append_left _ (hs.known id (List.mem_append_right _ hid))
            · rcases List.mem_append.mp ho with ho | ho
              · exact hs.bases o ho
              · rw [List.mem_singleton.mp ho]
                exact hcatalog.baseName_mem hdeclared
          · exact fun _ => hs

/-- Every command leaves a session over declared classes, whether it succeeds or not. -/
theorem seated_perform (hcatalog : c.catalog.WellDeclared) (command : Command)
    (hs : s.Seated c.catalog) : (c.perform command s).2.Seated c.catalog := by
  have habides := tolerates_abides c
  have hdone {x : Exec Unit} (hx : Exec.Follows Abides x) :
      ((x >>= fun _ => pure none : Exec (Option Page)) s).2.Seated c.catalog :=
    hs.of_abides (follows_done hx s)
  cases command with
  | add object entity values =>
      have hadd : Exec.Follows (Exec.Preserves (Seated c.catalog)) (c.add object entity values) :=
        fun _ => seated_add hcatalog object entity values
      exact follows_done hadd s hs
  | readd object => exact hdone (c.abides_readd object)
  | set object attr value => exact hdone (c.abides_set object attr value)
  | delete object => exact hdone (c.abides_delete object)
  | flush => exact hdone (follows_flush habides)
  | commit => exact hdone c.abides_commit
  | rollback => exact hdone c.abides_rollback
  | close => exact hdone (Exec.follows_modify abides_close)
  | beginNested name => exact hdone (follows_beginNested habides name)
  | release name => exact hdone (follows_release habides name)
  | rollbackTo name => exact hdone (c.abides_rollbackTo name)
  | leave name => exact hdone (c.abides_leave name)
  | search entity text options =>
      exact hs.of_abides (Exec.follows_bind (c.abides_search entity text options)
        (fun _ => Exec.follows_pure _) s)

theorem seated_performAll (hcatalog : c.catalog.WellDeclared) (commands : List Command)
    (hs : s.Seated c.catalog) : (c.performAll commands s).Seated c.catalog := by
  induction commands generalizing s with
  | nil => exact hs
  | cons command commands ih => exact ih (seated_perform hcatalog command hs)

end Surroundings

/-- After every run the session is one over the declared classes. -/
theorem Running.seated_run {catalog : Catalog} (hcatalog : catalog.WellDeclared)
    (backend : Backend) (program : List Instruction) {r : Running}
    (hr : r.session.Seated catalog) : (r.run catalog backend program).session.Seated catalog := by
  induction program generalizing r with
  | nil => exact hr
  | cons i program ih =>
      refine ih ?_
      cases i with
      | session command =>
          exact Surroundings.seated_perform (c := r.surroundings catalog backend) hcatalog
            command hr
      | setStanding b => exact hr
      | enter name b => exact hr
      | leave name => exact hr

end Typeahead
