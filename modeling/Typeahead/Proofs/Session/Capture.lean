import Typeahead.Proofs.Session.Reading

/-!
# Capturing writes

What a flush adds to the queue, read off the session right after it: `writeOf` is the
write of one object's change and `written` are those of a whole flush.  While a flush
goes on, later objects are read again, and this does not change the writes captured
before.
-/

namespace Typeahead

namespace Surroundings

open Session

/-- The write of an object's change, for an object of a class whose changes are queued. -/
def writeOf (c : Surroundings) (s : Session) (action : Action) (id : Nat) :
    Option PendingWrite := do
  let o ← s.object? id
  let x ← c.queueing? o.entity
  let (key, body) ← (x.index.writeParts action (o.view (c.attrs o.entity))).toOption
  return ⟨s.path, x, action, key, body⟩

/-- The write of an object's change through the configuration of its class, whenever that
writes. -/
def changeOf (c : Surroundings) (s : Session) (action : Action) (id : Nat) :
    Option PendingWrite := do
  let o ← s.object? id
  let x ← c.catalog.searchable? o.entity
  let (key, body) ← (x.index.writeParts action (o.view (c.attrs o.entity))).toOption
  return ⟨s.path, x, action, key, body⟩

/-- The writes that are queued are those of a configuration that writes on commit. -/
theorem writeOf_eq_changeOf (c : Surroundings) (s : Session) (action : Action) (id : Nat) :
    c.writeOf s action id =
      (c.changeOf s action id).filter fun w => w.searchable.index.writesOnCommit := by
  unfold writeOf changeOf queueing?
  cases s.object? id with
  | none => rfl
  | some o =>
      simp only [Option.bind_eq_bind, Option.bind_some]
      cases c.catalog.searchable? o.entity with
      | none => rfl
      | some x =>
          rw [Option.filter_some]
          simp only [Option.bind_some]
          cases hcommit : x.index.writesOnCommit with
          | false =>
              cases x.index.writeParts action (o.view (c.attrs o.entity)) with
              | error e => rfl
              | ok parts => simp [Except.toOption, Option.filter_some, hcommit]
          | true =>
              simp only [if_true, Option.bind_some]
              cases x.index.writeParts action (o.view (c.attrs o.entity)) with
              | error e => rfl
              | ok parts => simp [Except.toOption, Option.filter_some, hcommit]

/-- The writes of a flush, from the sessions before and after it: new objects, changed
ones, removed ones. -/
def written (c : Surroundings) (before after : Session) : List PendingWrite :=
  before.fresh.filterMap (c.writeOf after .index) ++
    ((before.dirty.filter Obj.isModified).map (·.id)).filterMap (c.writeOf after .update) ++
    before.marked.filterMap (c.writeOf after .delete)

theorem neededAttrs_eq (x : Searchable) (action : Action) :
    neededAttrs x action = x.index.neededNames action := by
  cases action with
  | delete => rfl
  | index => rfl
  | update => rfl

theorem capture_reads (c : Surroundings) {s t : Session} {x : Searchable} {action : Action}
    {id : Nat} {r : Except Failure (Value × Value)} (h : c.capture x action id s = (r, t)) :
    Reads c s t ∧ t.queue = s.queue ∧ ∀ parts, r = .ok parts → ∃ p, t.object? id = some p ∧
      c.AtHand (neededAttrs x action) p ∧
      x.index.writeParts action (p.view (c.attrs p.entity)) = .ok parts := by
  unfold capture at h
  rw [Exec.bind_apply] at h
  rcases hload : c.load id (neededAttrs x action) s with ⟨q, u⟩
  obtain ⟨hreads, hqueue, hloaded⟩ := c.load_reads hload
  rw [hload] at h
  cases q with
  | error e =>
      obtain ⟨rfl, rfl⟩ := Prod.mk.inj h
      exact ⟨hreads, hqueue, fun p hp => absurd hp (by simp)⟩
  | ok p =>
      obtain ⟨hp, hhand⟩ := hloaded p rfl
      dsimp only at h
      rw [Exec.bind_apply, Exec.ofExcept_apply] at h
      cases hbody : x.index.bodyFor action (p.view (c.attrs p.entity)) with
      | error e =>
          rw [hbody] at h
          obtain ⟨rfl, rfl⟩ := Prod.mk.inj h
          exact ⟨hreads, hqueue, fun p hp => absurd hp (by simp)⟩
      | ok body =>
          rw [hbody] at h
          dsimp only at h
          rw [Exec.bind_apply, Exec.ofExcept_apply] at h
          cases hkey : Index.documentId (p.view (c.attrs p.entity)) with
          | error e =>
              rw [hkey] at h
              obtain ⟨rfl, rfl⟩ := Prod.mk.inj h
              exact ⟨hreads, hqueue, fun p hp => absurd hp (by simp)⟩
          | ok key =>
              rw [hkey] at h
              obtain ⟨rfl, rfl⟩ := Prod.mk.inj h
              refine ⟨hreads, hqueue, fun parts hparts => ⟨p, hp, hhand, ?_⟩⟩
              rw [← hparts, Index.writeParts, hbody]
              exact congrArg (fun q => q >>= fun key => pure (key, body)) hkey

end Surroundings

namespace Session

/-- An object of a session whose objects were at most read again. -/
theorem Reads.object? {c : Surroundings} {s t : Session} (h : Reads c s t) (hs : s.Sound)
    {id : Nat} {o : Obj} (ho : s.object? id = some o) :
    ∃ p, t.object? id = some p ∧ Obj.Loads (c.attrs o.entity) o p := by
  rcases object?_cases (h.objects hs) (fun o p hop => (hop.carries []).id) id with
    ⟨hnone, _⟩ | ⟨o', p, ho', hp, hloads⟩
  · rw [hnone] at ho
    cases ho
  · obtain rfl := Option.some.inj (ho.symm.trans ho')
    exact ⟨p, hp, hloads⟩

theorem reads_queue (c : Surroundings) (s : Session) (queue : List PendingWrite) :
    Reads c s { s with queue := queue } where
  stays := ⟨rfl, Opens.of_eq rfl rfl rfl, fun h => h.of_objects_eq rfl⟩
  fresh := rfl
  marked := rfl
  rows := rfl
  objects _ := List.forall₂_same.mpr fun o _ => Obj.Loads.refl (c.attrs o.entity) o

/-- Whether a change is worth a write: an update is when it changes something. -/
def isDue (s : Session) (action : Action) (id : Nat) : Bool :=
  action != .update || (s.object? id).any Obj.isModified

theorem Reads.isDue_eq {c : Surroundings} {s t : Session} (h : Reads c s t) (hs : s.Sound) :
    t.isDue = s.isDue := by
  funext action id
  rcases object?_cases (h.objects hs) (fun o p hop => (hop.carries []).id) id with
    ⟨ho, hp⟩ | ⟨o, p, ho, hp, hloads⟩
  · rw [isDue, isDue, ho, hp]
  · have htracked := (hs.objects o (mem_of_object?_eq_some ho).1).tracked
    have hmodified := (hloads.carries []).isModified_eq htracked List.not_mem_nil
    rw [isDue, isDue, ho, hp, Option.any_some, Option.any_some, hmodified]

end Session

namespace Surroundings

open Session

/-- A captured write stays what it is when its object is read again. -/
theorem changeOf_of_loads {c : Surroundings} {t u : Session} {action : Action} {id : Nat}
    {p q : Obj} {x : Searchable} (hp : t.object? id = some p) (hq : u.object? id = some q)
    (hloads : Obj.Loads (c.attrs p.entity) p q) (hpath : u.path = t.path)
    (hx : c.catalog.searchable? p.entity = some x) (hhand : c.AtHand (neededAttrs x action) p) :
    c.changeOf u action id = c.changeOf t action id := by
  have hentity : q.entity = p.entity := (hloads.carries []).entity
  have hparts : x.index.writeParts action (q.view (c.attrs p.entity)) =
      x.index.writeParts action (p.view (c.attrs p.entity)) := by
    refine Index.writeParts_congr x.index action fun n hn => ?_
    rw [← neededAttrs_eq] at hn
    exact hloads.get?_view_eq fun hexpired hkey ha => hhand hexpired hkey n hn ha
  simp only [changeOf, hp, hq, hentity, hx, Option.bind_eq_bind, Option.bind_some, hparts, hpath]

theorem searchable?_of_queueing? {c : Surroundings} {entity : String} {x : Searchable}
    (h : c.queueing? entity = some x) : c.catalog.searchable? entity = some x :=
  (Option.filter_eq_some_iff.mp h).1

/-- A captured write stays what it is while other objects are read. -/
theorem writeOf_of_reads {c : Surroundings} {t u : Session} {action : Action} {id : Nat}
    {p : Obj} {x : Searchable} (h : Reads c t u) (ht : t.Sound) (hstack : t.stack ≠ [])
    (hp : t.object? id = some p) (hx : c.queueing? p.entity = some x)
    (hhand : c.AtHand (neededAttrs x action) p) :
    c.writeOf u action id = c.writeOf t action id := by
  obtain ⟨q, hq, hloads⟩ := h.object? ht hp
  have hpath : u.path = t.path := by rw [path_eq, path_eq, h.stays.opens.outline_eq hstack]
  rw [writeOf_eq_changeOf, writeOf_eq_changeOf,
    changeOf_of_loads hp hq hloads hpath (searchable?_of_queueing? hx) hhand]

/-- Writes were queued, and objects at most read again.  On success they are what `f` reads off
any later session of the flush. -/
structure Queued (c : Surroundings) (f : Session → List PendingWrite) (s t : Session)
    (r : Except Failure Unit) : Prop where
  reads : Reads c s t
  queue : ∃ ws, t.queue = s.queue ++ ws ∧ (∀ w ∈ ws, w.path = s.path) ∧
    (r = .ok () → ∀ u, Reads c t u → ws = f u)

/-- A computation queues the writes that `f` reads off the sessions after it. -/
def Enqueues (c : Surroundings) (f : Session → List PendingWrite) (x : Exec Unit) : Prop :=
  ∀ s, s.Sound → s.stack ≠ [] → Queued c f s (x s).2 (x s).1

section Enqueues

variable {c : Surroundings} {f g : Session → List PendingWrite} {s t : Session}
  {action : Action} {id : Nat}

theorem Enqueues.of_eq {x : Exec Unit} {r : Except Failure Unit} (hx : Enqueues c f x)
    (h : x s = (r, t)) (hs : s.Sound) (hstack : s.stack ≠ []) : Queued c f s t r := by
  have hqueued := hx s hs hstack
  rw [h] at hqueued
  exact hqueued

/-- Nothing is queued. -/
theorem Queued.none (r : Except Failure Unit) (hf : r = .ok () → ∀ u, Reads c s u → f u = []) :
    Queued c f s s r :=
  ⟨Reads.refl c s, [], (List.append_nil _).symm, fun _ hw => absurd hw List.not_mem_nil,
    fun hr u hu => (hf hr u hu).symm⟩

theorem Queued.congr {r : Except Failure Unit} (h : Queued c f s t r)
    (hf : ∀ u, Reads c s u → f u = g u) : Queued c g s t r := by
  obtain ⟨hreads, ws, hqueue, hpaths, hws⟩ := h
  refine ⟨hreads, ws, hqueue, hpaths, fun hr u hu => ?_⟩
  rw [hws hr u hu]
  exact hf u (hreads.trans hu)

/-- Two computations queue the writes of one and then those of the other. -/
theorem enqueues_bind {x y : Exec Unit} (hx : Enqueues c f x) (hy : Enqueues c g y) :
    Enqueues c (fun u => f u ++ g u) (x >>= fun _ => y) := by
  intro s hs hstack
  obtain ⟨hreads, ws, hqueue, hpaths, hws⟩ := hx s hs hstack
  rw [Exec.bind_apply]
  rcases hfirst : x s with ⟨r, t⟩
  rw [hfirst] at hreads hqueue hws
  cases r with
  | error e => exact ⟨hreads, ws, hqueue, hpaths, fun hr => by cases hr⟩
  | ok q =>
      obtain ⟨hrest, vs, hqueue', hpaths', hvs⟩ := hy t (hreads.stays.sound hs)
        (hreads.stays.opens.stack_ne_nil hstack)
      have hpath : t.path = s.path := by
        rw [path_eq, path_eq, hreads.stays.opens.outline_eq hstack]
      refine ⟨hreads.trans hrest, ws ++ vs, ?_, fun w hw => ?_, fun hr u hu => ?_⟩
      · exact hqueue'.trans (by rw [hqueue, List.append_assoc])
      · rcases List.mem_append.mp hw with hw | hw
        · exact hpaths w hw
        · exact (hpaths' w hw).trans hpath
      · rw [hws rfl u (hrest.trans hu), hvs hr u hu]

theorem isDue_eq_not {o : Obj} (action : Action) (ho : s.object? id = some o) :
    s.isDue action id = !(action == .update && !o.isModified) := by
  rw [isDue, ho]
  cases action with
  | index => rfl
  | delete => rfl
  | update => simp

/-- A change that is not due, or of a class whose changes are not queued, has no write. -/
theorem queued_of_idle {o : Obj} {x : Option Searchable} (ho : s.object? id = some o)
    (hs : s.Sound) (hx : c.queueing? o.entity = x) (h : x = none ∨ s.isDue action id = false) :
    Queued c (fun u => if u.isDue action id then (c.writeOf u action id).toList else []) s s
      (.ok ()) := by
  refine Queued.none _ fun _ u hu => ?_
  rcases h with rfl | hdue
  · obtain ⟨p, hp, hloads⟩ := hu.object? hs ho
    have hnone : c.writeOf u action id = Option.none := by
      simp [writeOf, hp, (hloads.carries []).entity, hx]
    rw [hnone]
    simp
  · rw [hu.isDue_eq hs, hdue]
    rfl

/-- A captured change is put at the end of the queue. -/
theorem queued_of_capture {o : Obj} {x : Searchable} {parts : Value × Value}
    (hcapture : c.capture x action id s = (.ok parts, t)) (hs : s.Sound) (hstack : s.stack ≠ [])
    (ho : s.object? id = some o) (hx : c.queueing? o.entity = some x)
    (hdue : s.isDue action id = true) :
    Queued c (fun u => if u.isDue action id then (c.writeOf u action id).toList else []) s
      { t with queue := t.queue ++ [⟨t.path, x, action, parts.1, parts.2⟩] } (.ok ()) := by
  obtain ⟨hreads, hqueue, hcaptured⟩ := c.capture_reads hcapture
  obtain ⟨p, hp, hhand, hparts⟩ := hcaptured parts rfl
  obtain ⟨p', hp', hloads⟩ := hreads.object? hs ho
  obtain rfl : p' = p := Option.some.inj (hp'.symm.trans hp)
  have hxp : c.queueing? p'.entity = some x := by
    rw [(hloads.carries []).entity]
    exact hx
  have hpath : t.path = s.path := by
    rw [path_eq, path_eq, hreads.stays.opens.outline_eq hstack]
  have hwrite : c.writeOf t action id = some ⟨t.path, x, action, parts.1, parts.2⟩ := by
    simp [writeOf, hp, hxp, hparts, Except.toOption]
  have hqueued := reads_queue c t (t.queue ++ [⟨t.path, x, action, parts.1, parts.2⟩])
  refine ⟨hreads.trans hqueued, [⟨t.path, x, action, parts.1, parts.2⟩], ?_, ?_, ?_⟩
  · dsimp only
    rw [hqueue]
  · intro w hw
    rw [List.mem_singleton.mp hw]
    exact hpath
  · intro _ u hu
    have hlater := writeOf_of_reads (hqueued.trans hu) (hreads.stays.sound hs)
      (hreads.stays.opens.stack_ne_nil hstack) hp hxp hhand
    rw [((hreads.trans hqueued).trans hu).isDue_eq hs, hdue, hlater, hwrite]
    rfl

/-- Queueing one change. -/
theorem enqueues_enqueue (c : Surroundings) (action : Action) (id : Nat) :
    Enqueues c (fun u => if u.isDue action id then (c.writeOf u action id).toList else [])
      (c.enqueue action id) := by
  intro s hs hstack
  unfold enqueue
  rw [Exec.bind_apply, Exec.object_apply]
  cases ho : s.object? id with
  | none => exact Queued.none _ fun hr => by cases hr
  | some o =>
      dsimp only
      have hdue := isDue_eq_not action ho
      cases hx : c.queueing? o.entity with
      | none => exact queued_of_idle ho hs hx (Or.inl rfl)
      | some x =>
          dsimp only
          cases hskip : (action == .update && !o.isModified) with
          | true =>
              rw [hskip] at hdue
              exact queued_of_idle ho hs hx (Or.inr hdue)
          | false =>
              rw [hskip] at hdue
              rw [if_neg Bool.false_ne_true, Exec.bind_apply]
              rcases hcapture : c.capture x action id s with ⟨q, t⟩
              cases q with
              | error e =>
                  obtain ⟨hreads, hqueue, _⟩ := c.capture_reads hcapture
                  exact ⟨hreads, [], by rw [hqueue, List.append_nil],
                    fun _ hw => absurd hw List.not_mem_nil, fun hr => by cases hr⟩
              | ok parts => exact queued_of_capture hcapture hs hstack ho hx hdue

/-- Queueing several changes. -/
theorem enqueues_forM (c : Surroundings) (action : Action) (ids : List Nat) :
    Enqueues c (fun u => (ids.filter (u.isDue action)).filterMap (c.writeOf u action))
      (ids.forM (c.enqueue action)) := by
  induction ids with
  | nil => exact fun s _ _ => Queued.none _ fun _ _ _ => rfl
  | cons id ids ih =>
      intro s hs hstack
      rw [Exec.forM_cons]
      refine (enqueues_bind (enqueues_enqueue c action id) ih s hs hstack).congr fun u _ => ?_
      rw [List.filter_cons]
      cases u.isDue action id with
      | false => rfl
      | true =>
          rw [if_pos rfl, if_pos rfl, List.filterMap_cons]
          cases c.writeOf u action id with
          | none => rfl
          | some w => rfl

end Enqueues

theorem filter_isDue_of_ne {action : Action} (h : action ≠ .update) (s : Session)
    (ids : List Nat) : ids.filter (s.isDue action) = ids := by
  refine List.filter_eq_self.mpr fun id _ => ?_
  simp [isDue, h]

theorem filter_isDue_dirty {s : Session} (h : s.Sound) :
    (s.dirty.map (·.id)).filter (s.isDue .update) = (s.dirty.filter Obj.isModified).map (·.id) := by
  rw [List.filter_map]
  congr 1
  refine List.filter_congr fun o ho => ?_
  have hmem : o ∈ s.objects := (List.mem_filter.mp ho).1
  simp [isDue, h.object?_eq hmem]

/-- Queueing the changes of a flush. -/
theorem collect_queued (c : Surroundings) {s t : Session} {r : Except Failure Unit}
    (h : c.collect s = (r, t)) (hs : s.Sound) (hstack : s.stack ≠ []) :
    Queued c (c.written s) s t r := by
  have hcollect := enqueues_bind (enqueues_forM c .index s.fresh)
    (enqueues_bind (enqueues_forM c .update (s.dirty.map (·.id)))
      (enqueues_forM c .delete s.marked))
  have hsteps : c.collect s = ((s.fresh.forM (c.enqueue .index) >>= fun _ =>
      (s.dirty.map (·.id)).forM (c.enqueue .update) >>= fun _ =>
        s.marked.forM (c.enqueue .delete) : Exec Unit) s) := rfl
  rw [hsteps] at h
  refine (hcollect.of_eq h hs hstack).congr fun u hu => ?_
  have hdirty : (s.dirty.map (·.id)).filter (u.isDue .update) =
      (s.dirty.filter Obj.isModified).map (·.id) := by
    rw [hu.isDue_eq hs, filter_isDue_dirty hs]
  have hnew : s.fresh.filter (u.isDue .index) = s.fresh := filter_isDue_of_ne (by decide) u _
  have hgone : s.marked.filter (u.isDue .delete) = s.marked := filter_isDue_of_ne (by decide) u _
  rw [hnew, hgone, hdirty, ← List.append_assoc]
  rfl

end Surroundings

end Typeahead
