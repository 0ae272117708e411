import Typeahead.Proofs.Listening.Hearing

/-!
# What waits for the commit

A change whose configuration writes on commit is queued once, however many listeners have
heard of it.
-/

namespace Typeahead

namespace Session

/-- The changes of a flush: what it stores, what it changes and what it removes. -/
def changes (s : Session) : List (Action × Nat) :=
  s.fresh.map (fun id => (.index, id)) ++
    ((s.dirty.filter Obj.isModified).map (·.id)).map (fun id => (.update, id)) ++
    s.marked.map fun id => (.delete, id)

end Session

namespace Surroundings

open Session

variable {c : Surroundings} {s t u : Session} {action : Action} {id : Nat}

theorem written_eq (c : Surroundings) (s t : Session) :
    c.written s t = s.changes.filterMap fun change => c.writeOf t change.1 change.2 := by
  simp only [written, changes, List.filterMap_append, List.filterMap_map]
  rfl

/-- The number of writes that wait for the commit when an object changes. -/
def deferrals (c : Surroundings) (s : Session) (id : Nat) : Nat :=
  match s.object? id with
  | some o => if (c.queueing? o.entity).isSome then 1 else 0
  | none => 0

/-- What is queued for a change. -/
def deferred (c : Surroundings) (s : Session) (change : Action × Nat) :
    List (Option PendingWrite) :=
  List.replicate (c.deferrals s change.2) (c.changeOf s change.1 change.2)

/-- A change that has to wait has a write. -/
def Made (c : Surroundings) (s : Session) (change : Action × Nat) : Prop :=
  0 < c.deferrals s change.2 → (c.writeOf s change.1 change.2).isSome = true

theorem deferred_eq {change : Action × Nat} (h : c.Made s change) :
    c.deferred s change = (c.writeOf s change.1 change.2).toList.map some := by
  unfold deferred
  unfold Made deferrals at h
  rw [deferrals]
  cases ho : s.object? change.2 with
  | none => simp [writeOf, ho]
  | some o =>
      rw [ho] at h
      cases hx : c.queueing? o.entity with
      | none => simp [writeOf, ho, hx]
      | some x =>
          simp only [hx, Option.isSome_some, if_true, Nat.zero_lt_one, forall_const] at h ⊢
          obtain ⟨w, hw⟩ := Option.isSome_iff_exists.mp h
          rw [hw]
          rw [writeOf_eq_changeOf] at hw
          rw [(Option.filter_eq_some_iff.mp hw).1]
          rfl

theorem flatMap_deferred {changes : List (Action × Nat)}
    (h : ∀ change ∈ changes, c.Made s change) : changes.flatMap (c.deferred s) =
      (changes.filterMap fun change => c.writeOf s change.1 change.2).map some := by
  induction changes with
  | nil => rfl
  | cons change changes ih =>
      rw [List.flatMap_cons, deferred_eq (h change List.mem_cons_self),
        ih fun other hother => h other (List.mem_cons_of_mem change hother), List.filterMap_cons]
      cases c.writeOf s change.1 change.2 with
      | none => rfl
      | some w => rfl

theorem made_of_enqueue (h : c.enqueue action id s = (.ok (), t)) (hs : s.Sound)
    (hstack : s.stack ≠ []) (hdue : s.isDue action id = true) (hu : Reads c t u) :
    c.Made u (action, id) := by
  obtain ⟨hreads, ws, hqueue, _, hws⟩ := (enqueues_enqueue c action id).of_eq h hs hstack
  have hsu := hreads.trans hu
  have hwrite := hws rfl u hu
  rw [hsu.isDue_eq hs, if_pos hdue] at hwrite
  intro hwaits
  unfold enqueue at h
  rw [Exec.bind_apply, Exec.object_apply] at h
  cases ho : s.object? id with
  | none =>
      rw [ho] at h
      cases h
  | some o =>
      rw [ho] at h
      dsimp only at h
      obtain ⟨p, hp, hloads⟩ := hsu.object? hs ho
      rw [deferrals, hp] at hwaits
      dsimp only at hwaits
      rw [(hloads.carries []).entity] at hwaits
      cases hx : c.queueing? o.entity with
      | none =>
          rw [hx] at hwaits
          cases hwaits
      | some x =>
          rw [hx] at h
          dsimp only at h
          rw [isDue_eq_not action ho] at hdue
          rw [Bool.not_eq_true'] at hdue
          rw [if_neg (by rw [hdue]; exact Bool.false_ne_true)] at h
          obtain ⟨parts, v, hcapture, h⟩ := Exec.bind_eq_ok h
          obtain ⟨_, hsame, _⟩ := c.capture_reads hcapture
          -- the queue has grown, so there is a write
          obtain rfl := congrArg Prod.snd h
          dsimp only [Exec.modify_apply] at hqueue
          rw [hsame] at hqueue
          have hone := List.append_cancel_left hqueue
          rw [hwrite] at hone
          cases hw : c.writeOf u action id with
          | none =>
              rw [hw] at hone
              cases hone
          | some w => rfl

theorem made_of_forM_enqueue {ids : List Nat} (h : ids.forM (c.enqueue action) s = (.ok (), t))
    (hs : s.Sound) (hstack : s.stack ≠ []) (hu : Reads c t u) :
    ∀ id ∈ ids, s.isDue action id = true → c.Made u (action, id) := by
  induction ids generalizing s with
  | nil => exact fun id hid => absurd hid List.not_mem_nil
  | cons k ids ih =>
      obtain ⟨v, hfirst, hrest⟩ := Exec.forM_cons_ok h
      have hreads := ((enqueues_enqueue c action k).of_eq hfirst hs hstack).reads
      have hvsound := hreads.stays.sound hs
      have hvstack := hreads.stays.opens.stack_ne_nil hstack
      have hlater := ((enqueues_forM c action ids).of_eq hrest hvsound hvstack).reads
      intro id hid hdue
      rcases List.mem_cons.mp hid with rfl | hid
      · exact made_of_enqueue hfirst hs hstack hdue (hlater.trans hu)
      · exact ih hrest hvsound hvstack id hid (by rwa [hreads.isDue_eq hs])

/-- Every change that has to wait is queued at the end of a flush. -/
theorem made_of_collect (h : c.collect s = (.ok (), t)) (hs : s.Sound) (hstack : s.stack ≠ [])
    (hu : Reads c t u) : ∀ change ∈ s.changes, c.Made u change := by
  have hsteps : c.collect s = ((s.fresh.forM (c.enqueue .index) >>= fun _ =>
      (s.dirty.map (·.id)).forM (c.enqueue .update) >>= fun _ =>
        s.marked.forM (c.enqueue .delete) : Exec Unit) s) := rfl
  rw [hsteps] at h
  obtain ⟨_, v, hfresh, h⟩ := Exec.bind_eq_ok h
  obtain ⟨_, w, hdirty, hmarked⟩ := Exec.bind_eq_ok h
  have hv := ((enqueues_forM c .index s.fresh).of_eq hfresh hs hstack).reads
  have hvsound := hv.stays.sound hs
  have hvstack := hv.stays.opens.stack_ne_nil hstack
  have hw := ((enqueues_forM c .update (s.dirty.map (·.id))).of_eq hdirty hvsound hvstack).reads
  have hwsound := hw.stays.sound hvsound
  have hwstack := hw.stays.opens.stack_ne_nil hvstack
  have ht := ((enqueues_forM c .delete s.marked).of_eq hmarked hwsound hwstack).reads
  intro change hchange
  rcases List.mem_append.mp hchange with hchange | hchange
  · rcases List.mem_append.mp hchange with hchange | hchange
    · obtain ⟨id, hid, rfl⟩ := List.mem_map.mp hchange
      exact made_of_forM_enqueue hfresh hs hstack ((hw.trans ht).trans hu) id hid rfl
    · obtain ⟨id, hid, rfl⟩ := List.mem_map.mp hchange
      rw [← filter_isDue_dirty hs] at hid
      obtain ⟨hid, hdue⟩ := List.mem_filter.mp hid
      exact made_of_forM_enqueue hdirty hvsound hvstack (ht.trans hu) id hid
        (by rwa [hv.isDue_eq hs])
  · obtain ⟨id, hid, rfl⟩ := List.mem_map.mp hchange
    exact made_of_forM_enqueue hmarked hwsound hwstack hu id hid rfl

end Surroundings

end Typeahead
