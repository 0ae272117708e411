import Typeahead.Proofs.Session.Capture
import Typeahead.Proofs.Session.Sending
import Typeahead.Session.Flush

/-!
# Writing rows

The part of a flush before its writes are captured.  It changes rows, reads objects again
and numbers new ones, and its listeners send writes, `Session.Works`.  When all search
configurations write on commit, no listener takes part in it.
-/

namespace Typeahead

namespace Catalog

/-- All search configurations write on commit. -/
def OnCommit (c : Catalog) : Prop := ∀ e ∈ c, ∀ x ∈ e.searchables, x.index.writesOnCommit = true

theorem mem_of_mem_lineage {c : Catalog} {name : String} {e : Entity} (h : e ∈ lineage c name) :
    e ∈ c := by
  induction c generalizing name with
  | nil => cases h
  | cons d earlier ih =>
      rw [lineage] at h
      cases hname : d.model.name == name with
      | true =>
          rw [hname, if_pos rfl] at h
          rcases List.mem_cons.mp h with rfl | h
          · exact List.mem_cons_self
          · cases hparent : d.parent with
            | none =>
                rw [hparent] at h
                cases h
            | some p =>
                rw [hparent] at h
                exact List.mem_cons_of_mem d (ih h)
      | false =>
          rw [hname] at h
          exact List.mem_cons_of_mem d (ih h)

theorem OnCommit.listenerCount_eq_zero {c : Catalog} (h : c.OnCommit) (name : String) :
    c.listenerCount name = 0 := by
  rw [listenerCount, List.length_eq_zero_iff, List.filter_eq_nil_iff]
  intro e he hlistener
  obtain ⟨x, hx, hflush⟩ := List.any_eq_true.mp hlistener
  rw [h e (mem_of_mem_lineage he) x hx] at hflush
  cases hflush

end Catalog

namespace Session

/-- Objects that were at most read again or, those of `ids`, numbered have the same changes if
they were stored. -/
theorem modified_map_id_of_carries {ids : List Nat} {s t : Session}
    (h : List.Forall₂ (Obj.Carries ids) s.objects t.objects) (hs : s.Sound)
    (hmarked : t.marked = s.marked) (hids : ∀ id ∈ ids, id ∈ s.fresh) :
    (t.dirty.filter Obj.isModified).map (·.id) = (s.dirty.filter Obj.isModified).map (·.id) := by
  rw [dirty, dirty, List.filter_filter, List.filter_filter]
  refine map_filter_eq_of_forall₂ h (fun o ho p hop => ?_) fun o p hop => hop.id
  rw [hop.standing, hop.modified, hmarked, hop.id]
  cases hstored : o.standing == .stored with
  | false => simp
  | true =>
      have hold : o.id ∉ ids := fun hid => by
        rw [(hs.objects o ho).pending (hids o.id hid)] at hstored
        cases hstored
      rw [hop.isModified_eq (hs.objects o ho).tracked hold]

/-- Listeners sent writes at most, and none when writes are switched off or when there are no
listeners. -/
structure Hears (c : Surroundings) (s t : Session) : Prop where
  calls : s.sent <+: t.sent
  none : c.enabled = false ∨ c.catalog.OnCommit → t.sent = s.sent

/-- The document writes that came in between two sessions, all of them from listeners. -/
structure Heard (c : Surroundings) (heard : List Call) (s t : Session) : Prop where
  writes : t.writes = s.writes ++ heard
  none : c.enabled = false ∨ c.catalog.OnCommit → heard = []

namespace Heard

variable {c : Surroundings} {heard more : List Call} {s t u : Session}

theorem nil (c : Surroundings) (h : t.writes = s.writes) : Heard c [] s t :=
  ⟨h.trans (List.append_nil _).symm, fun _ => rfl⟩

theorem append (h : Heard c heard s t) (k : Heard c more t u) : Heard c (heard ++ more) s u where
  writes := by rw [k.writes, h.writes, List.append_assoc]
  none hnone := by rw [h.none hnone, k.none hnone, List.append_nil]

end Heard

namespace Hears

variable {c : Surroundings} {s t u : Session}

theorem of_sent (c : Surroundings) (h : t.sent = s.sent) : Hears c s t :=
  ⟨h ▸ List.prefix_refl s.sent, fun _ => h⟩

theorem trans (h : Hears c s t) (k : Hears c t u) : Hears c s u :=
  ⟨h.calls.trans k.calls, fun hnone => (k.none hnone).trans (h.none hnone)⟩

/-- What is heard are document writes behind those of before. -/
theorem exists_heard (h : Hears c s t) : ∃ heard, Heard c heard s t := by
  obtain ⟨calls, hcalls⟩ := h.calls
  refine ⟨calls.filter Call.isWrite, ?_, fun hnone => ?_⟩
  · rw [writes, writes, ← hcalls, List.filter_append]
  · have hsame := h.none hnone
    rw [← hcalls] at hsame
    rw [List.append_right_eq_self.mp hsame, List.filter_nil]

end Hears

/-- Rows were written, objects were at most read again or, those of `ids`, numbered, and
listeners sent writes. -/
structure Works (c : Surroundings) (ids : List Nat) (s t : Session) : Prop where
  heard : Hears c s t
  opens : Opens s t
  sound : s.Sound → t.Sound
  queue : t.queue = s.queue
  fresh : t.fresh = s.fresh
  marked : t.marked = s.marked
  objects : s.Sound → List.Forall₂ (Obj.Carries ids) s.objects t.objects

namespace Works

variable {c : Surroundings} {ids : List Nat} {s t u : Session}

theorem of_stays (h : Stays s t) (hqueue : t.queue = s.queue) (hfresh : t.fresh = s.fresh)
    (hmarked : t.marked = s.marked)
    (hobjects : s.Sound → List.Forall₂ (Obj.Carries ids) s.objects t.objects) :
    Works c ids s t :=
  ⟨Hears.of_sent c h.sent, h.opens, h.sound, hqueue, hfresh, hmarked, hobjects⟩

/-- Without listeners nothing is sent. -/
theorem stays (h : Works c ids s t) (hcommit : c.catalog.OnCommit) : Stays s t :=
  ⟨h.heard.none (Or.inr hcommit), h.opens, h.sound⟩

theorem refl (c : Surroundings) (ids : List Nat) (s : Session) : Works c ids s s :=
  of_stays (Stays.refl s) rfl rfl rfl fun _ =>
    List.forall₂_same.mpr fun o _ => Obj.Carries.refl ids o

theorem trans (h : Works c ids s t) (k : Works c ids t u) : Works c ids s u where
  heard := h.heard.trans k.heard
  opens := h.opens.trans k.opens
  sound := k.sound ∘ h.sound
  queue := k.queue.trans h.queue
  fresh := k.fresh.trans h.fresh
  marked := k.marked.trans h.marked
  objects hs :=
    forall₂_trans (fun _ _ _ hop hpq => hop.trans hpq) (h.objects hs) (k.objects (h.sound hs))

theorem of_rows (c : Surroundings) (ids : List Nat) (s : Session) (rows : List Row) :
    Works c ids s { s with rows := rows } :=
  of_stays ⟨rfl, Opens.of_eq rfl rfl rfl, fun h => h.of_objects_eq rfl⟩ rfl rfl rfl fun _ =>
    List.forall₂_same.mpr fun o _ => Obj.Carries.refl ids o

theorem of_put {o p : Obj} (ho : s.object? p.id = some o) (hop : Obj.Carries ids o p) :
    Works c ids s (s.modifyObject p.id fun _ => p) := by
  refine of_stays ⟨rfl, Opens.of_eq rfl rfl rfl, fun h => h.put ?_⟩ rfl rfl rfl fun h =>
    forall₂_put h (Obj.Carries.refl ids) ho hop
  exact hop.sound (h.objects o (mem_of_object?_eq_some ho).1)

theorem of_reads (h : Reads c s t) (hqueue : t.queue = s.queue) : Works c ids s t :=
  of_stays h.stays hqueue h.fresh h.marked fun hs =>
    (h.objects hs).imp fun _ _ hop => hop.carries ids

/-- A write that is sent while rows are written is that of a listener. -/
theorem of_send (hlistener : ¬ c.catalog.OnCommit) (x : Searchable) (action : Action)
    (key body : Value) (s : Session) : Works c ids s (c.send x action key body s).2 := by
  obtain ⟨outcome, hsend, _⟩ := c.send_spec ⟨[], x, action, key, body⟩ s
  rw [hsend]
  refine ⟨⟨List.prefix_append _ _, fun hnone => ?_⟩, Opens.of_eq rfl rfl rfl,
    fun h => h.of_objects_eq rfl, rfl, rfl, rfl, fun _ =>
      List.forall₂_same.mpr fun o _ => Obj.Carries.refl ids o⟩
  have hoff := hnone.resolve_right hlistener
  simp [hoff]

/-- The changes of stored objects stay the same. -/
theorem modified_map_id (h : Works c ids s t) (hs : s.Sound) (hids : ∀ id ∈ ids, id ∈ s.fresh) :
    (t.dirty.filter Obj.isModified).map (·.id) = (s.dirty.filter Obj.isModified).map (·.id) :=
  modified_map_id_of_carries (h.objects hs) hs h.marked hids

end Works

instance (c : Surroundings) (ids : List Nat) : IsPreorder Session (Works c ids) where
  refl := Works.refl c ids
  trans _ _ _ := Works.trans

end Session

namespace Surroundings

open Session

/-- The values of a new object with its key. -/
def numberedValues (o : Obj) (t : Table) (key : Value) : Options :=
  match t.keyColumn? with
  | some column => o.values.set column.attr key
  | none => o.values

theorem has_numberedValues {o : Obj} (t : Table) (key : Value) {a : String}
    (ha : o.values.has a = true) : (numberedValues o t key).has a = true := by
  unfold numberedValues
  cases t.keyColumn? with
  | none => exact ha
  | some column =>
      dsimp only
      rw [Options.has_set, ha, Bool.or_true]

/-- The row of a new object under its key. -/
def newRow (o : Obj) (t : Table) (key : Value) : Row :=
  ⟨t.name, key, t.attrs.map fun a => (a, (numberedValues o t key).getD a .null)⟩

theorem insertRow_apply (c : Surroundings) {s : Session} {id : Nat} {o : Obj} {t : Table}
    (ho : s.object? id = some o) (ht : c.catalog.table? o.entity = some t) :
    c.insertRow id s =
      match newKey t s.rows (c.ownKey o) with
      | .error e => (.error e, s)
      | .ok key =>
          if lacksValue t (numberedValues o t key) || (Row.find? s.rows t.name key).isSome then
            (.error (.session .integrity), s)
          else
            (.ok (), ({ s with rows := s.rows ++ [newRow o t key] }).modifyObject o.id
              fun _ => { o with values := numberedValues o t key }) := by
  unfold insertRow newRow numberedValues
  rw [Exec.bind_apply, Exec.object_apply, ho]
  dsimp only
  rw [ht]
  dsimp only
  rw [Exec.bind_apply, Exec.get_apply]
  dsimp only
  rw [Exec.bind_apply, Exec.ofExcept_apply]
  cases newKey t s.rows (c.ownKey o) with
  | error e => rfl
  | ok key =>
      cases t.keyColumn? with
      | none =>
          dsimp only
          split
          · rfl
          · rfl
      | some column =>
          dsimp only
          split
          · rfl
          · rfl

/-- A relation that does not tell sessions apart by their rows, by objects that were read again,
nor by the keys of the objects of `ids`. -/
structure Permits (c : Surroundings) (ids : List Nat) (R : Session → Session → Prop) : Prop where
  reads : ∀ {s t : Session}, Reads c s t → t.queue = s.queue → R s t
  rows : ∀ (s : Session) (rows : List Row), R s { s with rows := rows }
  numbers : ∀ {s : Session} {o : Obj} (t : Table) (key : Value), s.object? o.id = some o →
    o.id ∈ ids → R s (s.modifyObject o.id fun _ => { o with values := numberedValues o t key })

theorem permits_works (c : Surroundings) (ids : List Nat) : Permits c ids (Works c ids) where
  reads h hqueue := Works.of_reads h hqueue
  rows := Works.of_rows c ids
  numbers {s o} t key ho hid := by
    refine Works.of_put (p := { o with values := numberedValues o t key }) ho ?_
    exact ⟨rfl, rfl, rfl, rfl, rfl, rfl, fun a => has_numberedValues t key,
      fun hnew => absurd hid hnew⟩

section Rows

variable {c : Surroundings} {ids : List Nat} {R : Session → Session → Prop}
  [IsPreorder Session R] (hR : Permits c ids R)

include hR

omit [IsPreorder Session R] in
theorem follows_load (id : Nat) (needed : List String) :
    Exec.Follows R (c.load id needed) := by
  intro s
  rcases h : c.load id needed s with ⟨r, t⟩
  obtain ⟨hreads, hqueue, _⟩ := c.load_reads h
  exact hR.reads hreads hqueue

theorem follows_changeRow (o : Obj) (t : Table) (key : Value) (attrs : List String) :
    Exec.Follows R (c.changeRow o t key attrs) := by
  refine Exec.follows_get_bind fun s => ?_
  dsimp only
  cases Row.find? s.rows t.name key with
  | none => exact refl_of R s
  | some r =>
      dsimp only
      generalize (if attrs.contains ((t.keyColumn?.map (·.attr)).getD "") then c.ownKey o
        else key) = now
      split
      · exact refl_of R s
      · exact hR.rows s _

theorem follows_updateRow (id : Nat) : Exec.Follows R (c.updateRow id) := by
  refine Exec.follows_bind (Exec.follows_object id) fun o => ?_
  cases c.catalog.table? o.entity with
  | none => exact Exec.follows_pure _
  | some t =>
      cases o.key with
      | none => exact Exec.follows_pure _
      | some key =>
          dsimp only
          split
          · exact Exec.follows_pure _
          · refine Exec.follows_bind (follows_load hR id _) fun p => ?_
            exact follows_changeRow hR p t key _

theorem follows_overwriteRow (id : Nat) : Exec.Follows R (c.overwriteRow id) := by
  refine Exec.follows_bind (Exec.follows_object id) fun o => ?_
  cases c.catalog.table? o.entity with
  | none => exact Exec.follows_pure _
  | some t =>
      dsimp only
      split
      · exact Exec.follows_pure _
      · exact follows_changeRow hR o t _ _

theorem follows_removeRow (id : Nat) : Exec.Follows R (c.removeRow id) := by
  refine Exec.follows_bind (Exec.follows_object id) fun o => ?_
  refine Exec.follows_bind (follows_load hR id _) fun p => ?_
  cases p.key with
  | none => exact Exec.follows_pure _
  | some key => exact Exec.follows_modify fun s => hR.rows s _

theorem follows_insertRow {id : Nat} (hid : id ∈ ids) : Exec.Follows R (c.insertRow id) := by
  intro s
  cases ho : s.object? id with
  | none =>
      unfold insertRow
      rw [Exec.bind_apply, Exec.object_apply, ho]
      exact refl_of R s
  | some o =>
      cases ht : c.catalog.table? o.entity with
      | none =>
          unfold insertRow
          rw [Exec.bind_apply, Exec.object_apply, ho]
          dsimp only
          rw [ht]
          exact refl_of R s
      | some t =>
          obtain rfl : o.id = id := (mem_of_object?_eq_some ho).2
          rw [c.insertRow_apply ho ht]
          cases newKey t s.rows (c.ownKey o) with
          | error e => exact refl_of R s
          | ok key =>
              dsimp only
              split
              · exact refl_of R s
              · refine trans_of R (hR.rows s (s.rows ++ [newRow o t key])) ?_
                exact hR.numbers t key ho hid

end Rows

variable (c : Surroundings) (ids : List Nat)

theorem works_capture (x : Searchable) (action : Action) (id : Nat) :
    Exec.Follows (Works c ids) (c.capture x action id) := by
  intro s
  rcases h : c.capture x action id s with ⟨r, t⟩
  obtain ⟨hreads, hqueue, _⟩ := c.capture_reads h
  exact Works.of_reads hreads hqueue

theorem follows_announce (action : Action) (id : Nat) :
    Exec.Follows (Works c ids) (c.announce action id) := by
  refine Exec.follows_bind (Exec.follows_object id) fun o => ?_
  cases c.catalog.searchable? o.entity with
  | none => exact Exec.follows_pure _
  | some x =>
      dsimp only
      split
      · exact Exec.follows_pure _
      · refine Exec.follows_forM fun _ hmem => ?_
        have hlistener : ¬ c.catalog.OnCommit := fun hcommit => by
          rw [hcommit.listenerCount_eq_zero] at hmem
          cases hmem
        refine Exec.follows_bind (c.works_capture ids x action id) fun parts => ?_
        exact fun s => Works.of_send hlistener x action parts.1 parts.2 s

theorem follows_save {plan : TablePlan} (hids : ∀ id ∈ plan.inserted, id ∈ ids) :
    Exec.Follows (Works c ids) (c.save plan) := by
  have hannounce (action : Action) (xs : List Nat) :
      Exec.Follows (Works c ids) (xs.forM (c.announce action)) :=
    Exec.follows_forM fun id _ => c.follows_announce ids action id
  have hworks := permits_works c ids
  refine Exec.follows_bind
    (Exec.follows_forM fun id _ => follows_overwriteRow hworks id) fun _ => ?_
  refine Exec.follows_bind (Exec.follows_forM fun id _ => follows_updateRow hworks id) fun _ => ?_
  refine Exec.follows_bind
    (Exec.follows_forM fun id hid => follows_insertRow hworks (hids id hid)) fun _ => ?_
  refine Exec.follows_bind (hannounce .index _) fun _ => ?_
  exact Exec.follows_bind (hannounce .update _) fun _ => hannounce .update _

theorem follows_remove (plan : TablePlan) : Exec.Follows (Works c ids) (c.remove plan) := by
  refine Exec.follows_bind
    (Exec.follows_forM fun id _ => follows_removeRow (permits_works c ids) id) fun _ => ?_
  exact Exec.follows_forM fun id _ => c.follows_announce ids .delete id

theorem inserted_subset_fresh (s : Session) (base : String) :
    ∀ id ∈ (c.planFor s base).inserted, id ∈ s.fresh := by
  intro id hid
  obtain ⟨o, ho, rfl⟩ := List.mem_map.mp hid
  have hpending := (List.mem_filter.mp (List.mem_filter.mp ho).1).1
  obtain ⟨k, hk, hko⟩ := List.mem_filterMap.mp hpending
  rw [(mem_of_object?_eq_some hko).2]
  exact hk

end Surroundings

end Typeahead
