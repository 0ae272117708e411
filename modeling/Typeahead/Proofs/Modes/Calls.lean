import Typeahead.Proofs.Listening.Changes
import Typeahead.Proofs.Modes.Lockstep

/-!
# The calls of a flush in both modes

While flushing, listeners hear of the changes of a flush in the order of its rows; on commit they
are queued in the order of the objects.  Unless an id is reused, no two changes of one kind are
for the same id, so that the calls for each id are the same.
-/

namespace Typeahead

/-- Lists of the same elements give the same results, when all that give one are the same. -/
theorem filterMap_eq_of_perm {α β : Type} {g : α → Option β} {xs ys : List α} (h : xs.Perm ys)
    (hone : ∀ a ∈ xs, ∀ b ∈ xs, (g a).isSome → (g b).isSome → a = b) :
    xs.filterMap g = ys.filterMap g := by
  have hequal {zs : List α} (hzs : ∀ a ∈ zs, a ∈ xs) : (zs.filterMap g).Pairwise (· = ·) := by
    refine List.pairwise_of_forall_mem_list fun b hb d hd => ?_
    obtain ⟨a, ha, hab⟩ := List.mem_filterMap.mp hb
    obtain ⟨e, he, hed⟩ := List.mem_filterMap.mp hd
    obtain rfl := hone a (hzs a ha) e (hzs e he) (by rw [hab]; rfl) (by rw [hed]; rfl)
    exact Option.some.inj (hab.symm.trans hed)
  exact (h.filterMap g).eq_of_pairwise (fun _ _ _ _ heq _ => heq) (hequal fun _ ha => ha)
    (hequal fun _ ha => h.mem_iff.mpr ha)

/-- A list whose items were put in place one by one. -/
theorem eq_filterMap_of_flatMap {α β : Type} {f : α → Option β} {g : α → List (Option β)}
    (h : ∀ a, g a = [f a] ∨ g a = [] ∧ f a = none) {xs : List α} {ys : List β}
    (hxs : xs.flatMap g = ys.map some) : ys = xs.filterMap f := by
  induction xs generalizing ys with
  | nil => exact List.map_eq_nil_iff.mp hxs.symm
  | cons a xs ih =>
      rw [List.flatMap_cons] at hxs
      rcases h a with ha | ⟨ha, hnone⟩
      · rw [ha] at hxs
        obtain ⟨b, ys, rfl, hb, hys⟩ := List.map_eq_cons_iff.mp hxs.symm
        rw [List.filterMap_cons, ← hb, ih hys.symm]
      · rw [ha] at hxs
        rw [List.filterMap_cons, hnone, ih hxs]

namespace Call

/-- Whether a call changes a part of a document. -/
def isUpdate : Call → Bool
  | .update .. => true
  | _ => false

/-- Some call changes a part of the document under an id. -/
def Updates (calls : List Call) (k : Value) : Prop :=
  ∃ call ∈ calls, call.isUpdate = true ∧ call.isFor k = true

instance (calls : List Call) (k : Value) : Decidable (Updates calls k) :=
  inferInstanceAs (Decidable (∃ call ∈ calls, call.isUpdate = true ∧ call.isFor k = true))

theorem updates_congr {calls calls' : List Call} {k : Value}
    (h : calls.filter (isFor k) = calls'.filter (isFor k)) :
    Updates calls k ↔ Updates calls' k := by
  have hfilter (xs : List Call) :
      Updates xs k ↔ ∃ call ∈ xs.filter (isFor k), call.isUpdate = true := by
    simp only [Updates, List.mem_filter, and_assoc, and_comm]
  rw [hfilter, hfilter, h]

end Call

theorem PendingWrite.isUpdate_call (w : PendingWrite) :
    w.call.isUpdate = (w.action == .update) := by
  unfold call
  cases w.action with
  | index => rfl
  | update => rfl
  | delete => rfl

namespace Session

/-- The calls that were made, and those that wait to be. -/
def posted (s : Session) : List Call := s.sent ++ s.queue.map PendingWrite.call

theorem posted_begin (s : Session) : s.begin.posted = s.posted := by
  rw [posted, posted, begin_sent, begin_queue]

/-- A live object with changes is written by the next flush. -/
theorem IsLive.mem_dirty {s : Session} {o : Obj} (h : s.IsLive o)
    (hmodified : o.isModified = true) : o ∈ s.dirty := by
  rw [Obj.isModified, Bool.and_eq_true] at hmodified
  refine List.mem_filter.mpr ⟨h.1, ?_⟩
  simpa [h.2.1, hmodified.1] using h.2.2

/-- When there is nothing to flush, no live object was changed. -/
theorem IsLive.modified_eq_false {s : Session} {o : Obj} (h : s.IsLive o)
    (hclean : s.isClean = true) : o.modified = false := by
  simp only [isClean, Bool.and_eq_true, Bool.not_eq_true', List.any_eq_false] at hclean
  simpa [h.2.1] using hclean.2 o h.1

end Session

namespace Surroundings

open Session

variable {c : Surroundings} {name : String} {t : Table} {x : Searchable} {s u v w : Session}

/-- The call that a change comes to. -/
def callOf (c : Surroundings) (s : Session) (change : Action × Nat) : Option Call :=
  (c.changeOf s change.1 change.2).map PendingWrite.call

/-- It is the same in both modes. -/
theorem callOf_withCallbacks (c : Surroundings) (onCommit : Bool) (s : Session)
    (queue : List PendingWrite) (sent : List Call) :
    (c.withCallbacks onCommit).callOf (s.withWrites queue sent) = c.callOf s := by
  funext change
  have hobject : (s.withWrites queue sent).object? change.2 = s.object? change.2 := rfl
  unfold callOf changeOf
  rw [hobject]
  cases s.object? change.2 with
  | none => rfl
  | some o =>
      simp only [Option.bind_eq_bind, Option.bind_some, attrs_withCallbacks]
      have hsearchable : (c.withCallbacks onCommit).catalog.searchable? o.entity =
          (c.catalog.searchable? o.entity).map fun x => x.withCallbacks onCommit :=
        c.catalog.searchable?_withCallbacks onCommit o.entity
      rw [hsearchable]
      cases c.catalog.searchable? o.entity with
      | none => rfl
      | some x =>
          have hparts : (x.withCallbacks onCommit).index.writeParts = x.index.writeParts := rfl
          simp only [Option.map_some, Option.bind_some, hparts]
          cases x.index.writeParts change.1 (o.view (c.attrs o.entity)) with
          | error e => rfl
          | ok parts => rfl

theorem reported_withCallbacks (c : Surroundings) (onCommit : Bool) (s : Session)
    (queue : List PendingWrite) (sent : List Call) :
    (c.withCallbacks onCommit).reported (s.withWrites queue sent) = c.reported s := by
  rw [reported, reported, plans_withCallbacks]
  rfl

/-- With writes on commit, every change is queued. -/
theorem writeOf_of_onCommit (hcommit : c.catalog.OnCommit) (s : Session) (action : Action)
    (id : Nat) : c.writeOf s action id = c.changeOf s action id := by
  have hqueueing : c.queueing? = c.catalog.searchable? := by
    funext entity
    cases hx : c.catalog.searchable? entity with
    | none => rw [queueing?, hx, Option.filter_none]
    | some x => rw [queueing?, hx, Option.filter_some, if_pos (hcommit.writesOnCommit hx)]
  rw [writeOf, changeOf, hqueueing]

theorem callsFor_eq (hcommit : c.catalog.OnCommit) (s : Session) (action : Action)
    (ids : List Nat) (k : Value) :
    c.callsFor s action ids k =
      ((ids.map fun id => (action, id)).filterMap (c.callOf s)).filter (Call.isFor k) := by
  rw [callsFor, List.filterMap_map, List.map_filterMap]
  simp only [writeOf_of_onCommit hcommit]
  rfl

theorem callsFor_conclude (c : Surroundings) (v : Session) :
    c.callsFor (c.conclude v) = c.callsFor v := by
  funext action ids k
  simp only [callsFor, (settles_conclude c v).writeOf_eq c]

namespace Queues

/-- Stored objects of different numbers have different ids, so the order in which they are gone
through makes no difference for the calls of an id. -/
theorem callsFor_perm (h : Queues c t s u v) (hc : c.Replicates name t x) (hs : s.Regular name t)
    (action : Action) {ids ids' : List Nat} (hperm : ids.Perm ids')
    (hstored : ∀ id ∈ ids, ∃ o ∈ s.objects, o.id = id ∧ o.standing = .stored) (k : Value) :
    c.callsFor v action ids k = c.callsFor v action ids' k := by
  have hshown : ∀ id ∈ ids, ((c.callOf v (action, id)).filter (Call.isFor k)).isSome →
      ∃ o ∈ s.objects, o.id = id ∧ o.standing = .stored ∧ o.label.same k = true := by
    intro id hid hcall
    obtain ⟨o, ho, rfl, hostored⟩ := hstored id hid
    obtain ⟨call, hcall⟩ := Option.isSome_iff_exists.mp hcall
    have hmem : call ∈ c.callsFor v action [o.id] k := by
      rw [callsFor_eq hc.onCommit, List.filter_filterMap]
      simp [hcall]
    obtain ⟨p, hpid, hp, hpk, _⟩ := (h.mem_callsFor hc hs).mp hmem
    have hold := h.stores.object?_eq hs ho (hs.stored_notMem_fresh ho hostored)
    rw [List.mem_singleton.mp hpid, hold] at hp
    obtain rfl := Option.some.inj hp
    exact ⟨o, ho, rfl, hostored, hpk⟩
  rw [callsFor_eq hc.onCommit, callsFor_eq hc.onCommit, List.filterMap_map, List.filterMap_map,
    List.filter_filterMap, List.filter_filterMap]
  refine filterMap_eq_of_perm hperm fun i hi j hj hicall hjcall => ?_
  obtain ⟨o, ho, rfl, hostored, hok⟩ := hshown i hi hicall
  obtain ⟨p, hp, rfl, hpstored, hpk⟩ := hshown j hj hjcall
  have hplabel := (hs.objects p hp).label
  rw [hs.distinct o ho p hp hostored hpstored
    ((hs.objects o ho).label.trans hok (hplabel.symm hpk))]

end Queues

/-- Of several tables only that of the class has something to do. -/
theorem flatMap_plans (hc : c.Replicates name t x) (hs : s.Regular name t)
    {f : TablePlan → List (Action × Nat)} (hf : f emptyPlan = []) :
    (c.plans s).flatMap f = f (planOf s) := by
  have hnames (names : List String) (base : String) :
      (names.flatMap fun n => if n = base then f (planOf s) else []) =
        (List.replicate (names.count base) (f (planOf s))).flatten := by
    induction names with
    | nil => rfl
    | cons n names ih =>
        rw [List.flatMap_cons, ih]
        by_cases hn : n = base
        · rw [if_pos hn, hn, List.count_cons_self, List.replicate_succ, List.flatten_cons]
        · rw [if_neg hn, List.count_cons_of_ne hn, List.nil_append]
  have hplan (base : String) : f (c.planFor s base) =
      if base = c.catalog.baseName name then f (planOf s) else [] := by
    rw [planFor_eq hc hs]
    split
    · rfl
    · exact hf
  rw [plans, List.flatMap_map]
  simp only [hplan]
  rw [hnames, hc.once, List.replicate_one, List.flatten_singleton]

/-- Unless an id is reused, listeners hear of all new objects, of the changed ones in the order
of their keys and of all removed ones. -/
theorem Queues.reported_eq (h : Queues c t s u v) (hc : c.Replicates name t x)
    (hs : s.Regular name t) (hreuses : ¬ s.Reuses (c.conclude v)) :
    c.reported s = (s.fresh.map fun id => (.index, id)) ++
      (((Obj.byKey s.dirty).map (·.id)).filter (s.isDue .update)).map (fun id => (.update, id)) ++
      ((Obj.byKey s.doomed).map (·.id)).map fun id => (.delete, id) := by
  have hapart : ∀ o ∈ s.pending, ∀ d ∈ s.doomed, d.label.same o.label = false :=
    fun o ho d hd => h.pending_apart hc hs hreuses ho hd
  have hknown (ids : List Nat) (hids : ∀ id ∈ ids, id < s.objects.length) :
      (s.objectsOf ids).map (·.id) = ids := by
    refine map_objectsOf fun id hid => ?_
    rw [hs.sound.numbered, List.mem_range]
    exact hids id hid
  have hfree : ∀ o ∈ s.pending, (s.doomed.any fun d => d.label.same o.label) = false := by
    intro o ho
    rw [List.any_eq_false]
    exact fun d hd => by simp [hapart o ho d hd]
  have hleft : ∀ d ∈ s.doomed, (s.pending.any fun o => d.label.same o.label) = false := by
    intro d hd
    rw [List.any_eq_false]
    exact fun o ho => by simp [hapart o ho d hd]
  have hplan : planOf s = ⟨s.fresh, [], (Obj.byKey s.dirty).map (·.id),
      (Obj.byKey s.doomed).map (·.id)⟩ := by
    have hnew : s.newcomers = s.pending :=
      List.filter_eq_self.mpr fun o ho => by rw [hfree o ho]; rfl
    have hnone : (s.pending.filter fun o => s.doomed.any fun d => d.label.same o.label) = [] :=
      List.filter_eq_nil_iff.mpr fun o ho => by rw [hfree o ho]; exact Bool.false_ne_true
    have hall : (s.doomed.filter fun d => !s.pending.any fun o => d.label.same o.label) =
        s.doomed := List.filter_eq_self.mpr fun d hd => by rw [hleft d hd]; rfl
    rw [planOf, hnew, hnone, hall, pending,
      hknown s.fresh fun id hid => hs.known id (List.mem_append_left _ hid)]
    rfl
  have hdue (action : Action) (haction : action ≠ .update) (ids : List Nat) :
      (ids.map fun id => (action, id)).filter (fun change => s.isDue change.1 change.2) =
        ids.map fun id => (action, id) := by
    rw [List.filter_map]
    exact congrArg (List.map _) (filter_isDue_of_ne haction s ids)
  rw [reported, flatMap_plans hc hs rfl, flatMap_plans hc hs rfl, hplan]
  simp only [TablePlan.saved, TablePlan.gone, List.map_nil, List.append_nil, List.filter_append]
  rw [hdue .index (by decide), hdue .delete (by decide), List.filter_map]
  rfl

/-- The changes of a flush and those that listeners hear of come to the same calls for each
id. -/
theorem Queues.filter_reported (h : Queues c t s u v) (hc : c.Replicates name t x)
    (hs : s.Regular name t) (hreuses : ¬ s.Reuses (c.conclude v)) (k : Value) :
    (s.changes.filterMap (c.callOf (c.conclude v))).filter (Call.isFor k) =
      ((c.reported s).filterMap (c.callOf (c.conclude v))).filter (Call.isFor k) := by
  have hmarked : s.doomed.map (·.id) = s.marked := map_objectsOf fun id hid => by
    rw [hs.sound.numbered, List.mem_range]
    exact hs.known id (List.mem_append_right _ hid)
  have hchanged : ((s.dirty.filter Obj.isModified).map (·.id)).Perm
      (((Obj.byKey s.dirty).map (·.id)).filter (s.isDue .update)) := by
    rw [← filter_isDue_dirty hs.sound]
    exact (((Obj.byKey_perm s.dirty).map _).filter _).symm
  have hgone : s.marked.Perm ((Obj.byKey s.doomed).map (·.id)) := by
    rw [← hmarked]
    exact ((Obj.byKey_perm s.doomed).map _).symm
  have hupdate := h.callsFor_perm hc hs .update hchanged (fun id hid => by
      obtain ⟨o, ho, rfl⟩ := List.mem_map.mp hid
      obtain ⟨hlive, _⟩ := Session.Regular.isLive_of_dirty (List.mem_filter.mp ho).1
      exact ⟨o, hlive.1, rfl, hlive.2.1⟩) k
  have hdelete := h.callsFor_perm hc hs .delete hgone (fun id hid => by
      rw [← hmarked] at hid
      obtain ⟨o, ho, rfl⟩ := List.mem_map.mp hid
      obtain ⟨hmem, _, _, hstored⟩ := hs.doomed_spec ho
      exact ⟨o, hmem, rfl, hstored⟩) k
  rw [← callsFor_conclude, callsFor_eq hc.onCommit, callsFor_eq hc.onCommit] at hupdate hdelete
  rw [h.reported_eq hc hs hreuses, changes]
  simp only [List.filterMap_append, List.filter_append]
  rw [hupdate, hdelete]

theorem action_of_changeOf {action : Action} {id : Nat} {y : PendingWrite}
    (h : c.changeOf s action id = some y) : y.action = action := by
  unfold changeOf at h
  obtain ⟨o, _, h⟩ := Option.bind_eq_some_iff.mp h
  obtain ⟨x, _, h⟩ := Option.bind_eq_some_iff.mp h
  obtain ⟨parts, _, h⟩ := Option.bind_eq_some_iff.mp h
  rw [← Option.some.inj h]

/-- Among the calls of a flush for an id there is an update exactly if a stored object of that id
has changes. -/
theorem Queues.updates_iff (h : Queues c t s u v) (hc : c.Replicates name t x)
    (hs : s.Regular name t) (k : Value) :
    Call.Updates (s.changes.filterMap (c.callOf (c.conclude v))) k ↔
      ∃ o, s.IsLive o ∧ o.isModified = true ∧ o.label.same k = true := by
  constructor
  · rintro ⟨call, hcall, hupdate, hfor⟩
    obtain ⟨⟨action, id⟩, hchange, hcall⟩ := List.mem_filterMap.mp hcall
    obtain ⟨y, hy, rfl⟩ := Option.map_eq_some_iff.mp hcall
    rw [y.isUpdate_call, action_of_changeOf hy, beq_iff_eq] at hupdate
    obtain rfl : action = .update := hupdate
    have hid : id ∈ (u.dirty.filter Obj.isModified).map (·.id) := by
      rw [h.works.modified_map_id hs.sound fun id hid => hid]
      simpa [changes] using hchange
    have hmem : y.call ∈ c.callsFor v .update ((u.dirty.filter Obj.isModified).map (·.id)) k := by
      rw [← callsFor_conclude, callsFor_eq hc.onCommit]
      exact List.mem_filter.mpr
        ⟨List.mem_filterMap.mpr ⟨(.update, id), List.mem_map_of_mem hid, hcall⟩, hfor⟩
    obtain ⟨o, ho, hmodified, hok, _⟩ := h.dirty_of_mem_callsFor hc hs hmem
    exact ⟨o, h.live_of_dirty hs ho, hmodified, hok⟩
  · rintro ⟨o, ho, hmodified, hok⟩
    have hdirty := ho.mem_dirty hmodified
    have hudirty := h.dirty_of_dirty hs hdirty
    have hobject := (h.sound hs).object?_eq (List.mem_filter.mp hudirty).1
    obtain ⟨body, hbody⟩ := h.exists_document hc hs hobject (Or.inr ⟨hudirty, hmodified⟩)
    have hid : o.id ∈ (s.dirty.filter Obj.isModified).map (·.id) :=
      List.mem_map_of_mem (List.mem_filter.mpr ⟨hdirty, hmodified⟩)
    have hmem : (⟨v.path, x, .update, o.label, body⟩ : PendingWrite).call ∈
        c.callsFor v .update ((s.dirty.filter Obj.isModified).map (·.id)) k :=
      (h.mem_callsFor hc hs).mpr ⟨o, hid, hobject, hok, body, hbody, rfl⟩
    rw [← callsFor_conclude, callsFor_eq hc.onCommit] at hmem
    obtain ⟨hmem, hfor⟩ := List.mem_filter.mp hmem
    refine ⟨_, ?_, ?_, hfor⟩
    · rw [changes, List.filterMap_append, List.filterMap_append]
      exact List.mem_append_left _ (List.mem_append_right _ hmem)
    · exact PendingWrite.isUpdate_call _

end Surroundings

end Typeahead
