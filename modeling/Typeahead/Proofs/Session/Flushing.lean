import Typeahead.Proofs.Session.Working

/-!
# Flushes

What a flush does to the queue and to the open transactions, and what its listeners send.
A flush that succeeds queues the writes of its changes, `Session.Flushed`.  One that fails
leaves the innermost transaction broken, and the writes captured up to then stay in the
queue, `Session.Aborted`.
-/

namespace Typeahead

namespace Session

/-- The bookkeeping at the end of a flush: objects keep their values. -/
structure Settles (s t : Session) : Prop where
  queue : t.queue = s.queue
  sent : t.sent = s.sent
  outline : t.outline = s.outline
  created : t.created = s.created
  savepoints : t.savepoints = s.savepoints
  objects : List.Forall₂ (fun o p => p.id = o.id ∧ p.entity = o.entity ∧ p.values = o.values)
    s.objects t.objects
  sound : SoundFor [] s → SoundFor [] t

namespace Settles

variable {s t u : Session}

theorem refl (s : Session) : Settles s s where
  queue := rfl
  sent := rfl
  outline := rfl
  created := rfl
  savepoints := rfl
  objects := List.forall₂_same.mpr fun _ _ => ⟨rfl, rfl, rfl⟩
  sound := id

theorem trans (h : Settles s t) (k : Settles t u) : Settles s u where
  queue := k.queue.trans h.queue
  sent := k.sent.trans h.sent
  outline := k.outline.trans h.outline
  created := k.created.trans h.created
  savepoints := k.savepoints.trans h.savepoints
  objects := by
    refine forall₂_trans (fun o p q hop hpq => ?_) h.objects k.objects
    exact ⟨hpq.1.trans hop.1, hpq.2.1.trans hop.2.1, hpq.2.2.trans hop.2.2⟩
  sound := k.sound ∘ h.sound

theorem foldl {α : Type} {f : Session → α → Session} (h : ∀ s a, Settles s (f s a))
    (as : List α) (s : Session) : Settles s (as.foldl f s) := by
  induction as generalizing s with
  | nil => exact refl s
  | cons a as ih => exact (h s a).trans (ih (f s a))

theorem of_modifyObject (s : Session) (id : Nat) {f : Obj → Obj}
    (hf : ∀ o, (f o).id = o.id ∧ (f o).entity = o.entity ∧ (f o).values = o.values)
    (hsound : ∀ o : Obj, o.Sound [] → (f o).Sound []) : Settles s (s.modifyObject id f) where
  queue := rfl
  sent := rfl
  outline := rfl
  created := rfl
  savepoints := rfl
  objects := by
    refine List.forall₂_map_right_iff.mpr (List.forall₂_same.mpr fun o _ => ?_)
    split
    · exact hf o
    · exact ⟨rfl, rfl, rfl⟩
  sound h := h.modifyObject fun o ho _ => ⟨(hf o).1, hsound o (h.objects o ho)⟩

theorem of_modifyInnermost (s : Session) {f : Transaction → Transaction}
    (hf : ∀ t, (f t).id = t.id ∧ (f t).state = t.state) : Settles s (s.modifyInnermost f) := by
  unfold modifyInnermost
  cases hstack : s.stack with
  | nil => exact refl s
  | cons t rest =>
      have houtline : ({ s with stack := f t :: rest } : Session).outline = s.outline := by
        simp [Session.outline, hstack, hf t]
      exact ⟨rfl, rfl, houtline, rfl, rfl, (refl s).objects, fun h => h.of_objects_eq rfl⟩

end Settles

theorem sound_of_standing {o : Obj} (h : o.Sound []) {standing : Standing}
    (hpending : standing ≠ .pending) (hloose : standing ≠ .loose) :
    ({ o with standing := standing } : Obj).Sound [] := by
  refine ⟨h.tracked, fun hstanding => ?_, fun hid => absurd hid List.not_mem_nil⟩
  rcases hstanding with hstanding | hstanding
  · exact absurd hstanding hpending
  · exact absurd hstanding hloose

theorem settles_keep (c : Surroundings) (s : Session) (id : Nat) : Settles s (c.keep s id) := by
  have hdisplace (d : Obj) : Settles s (if d.id == id then s
      else s.modifyObject d.id fun d => { d with standing := .displaced }) := by
    split
    · exact Settles.refl s
    · exact Settles.of_modifyObject s d.id (fun _ => ⟨rfl, rfl, rfl⟩) fun _ h =>
        sound_of_standing h (by decide) (by decide)
  have hstore (u : Session) (key : Value) : Settles u (u.modifyObject id fun o =>
      { o with standing := .stored, key := some key }.settle) := by
    refine Settles.of_modifyObject u id (fun _ => ⟨rfl, rfl, rfl⟩) fun o _ => ?_
    refine ⟨Obj.tracked_of_changes_eq_nil rfl, fun hstanding => ?_,
      fun hid => absurd hid List.not_mem_nil⟩
    rcases hstanding with hstanding | hstanding <;> cases hstanding
  have hnote (u : Session) (k : Value) : Settles u (u.modifyInnermost fun t =>
      if t.rekeyed.any fun e => e.1 == id then t
      else { t with rekeyed := t.rekeyed ++ [(id, some k)] }) := by
    refine Settles.of_modifyInnermost u fun t => ?_
    split
    · exact ⟨rfl, rfl⟩
    · exact ⟨rfl, rfl⟩
  unfold Surroundings.keep
  cases s.object? id with
  | none => exact Settles.refl s
  | some o =>
      dsimp only
      refine Settles.trans ?_ (hstore _ _)
      cases o.key.filter fun k => !k.same (c.ownKey o) with
      | none =>
          cases s.storedAt? c (c.tableName o.entity) (c.ownKey o) with
          | none => exact Settles.refl s
          | some d => exact hdisplace d
      | some k =>
          refine Settles.trans ?_ (hnote _ k)
          cases s.storedAt? c (c.tableName o.entity) (c.ownKey o) with
          | none => exact Settles.refl s
          | some d => exact hdisplace d

theorem settles_conclude (c : Surroundings) (s : Session) : Settles s (c.conclude s) := by
  have hremove (u : Session) (id : Nat) :
      Settles u (u.modifyObject id fun o => { o with standing := .removed }) :=
    Settles.of_modifyObject u id (fun _ => ⟨rfl, rfl, rfl⟩) fun _ h =>
      sound_of_standing h (by decide) (by decide)
  have hremoved := Settles.foldl hremove s.marked s
  have hkept := Settles.foldl (settles_keep c) (s.fresh ++ s.dirty.map (·.id)) (s.marked.foldl
    (fun s id => s.modifyObject id fun o => { o with standing := .removed }) s)
  have hnoted (u : Session) (f : Transaction → Transaction)
      (hf : ∀ t, (f t).id = t.id ∧ (f t).state = t.state) :
      Settles u { u.modifyInnermost f with fresh := [], marked := [] } := by
    have hu := Settles.of_modifyInnermost u hf
    exact ⟨hu.queue, hu.sent, hu.outline, hu.created, hu.savepoints, hu.objects,
      fun h => (hu.sound h).of_objects_eq rfl⟩
  exact (hremoved.trans hkept).trans (hnoted _ _ fun t => ⟨rfl, rfl⟩)

/-- What a change writes stays the same when only the bookkeeping goes on. -/
theorem Settles.changeOf_eq {s t : Session} (h : Settles s t) (c : Surroundings)
    (action : Action) (id : Nat) : c.changeOf t action id = c.changeOf s action id := by
  have hpath : t.path = s.path := by rw [path_eq, path_eq, h.outline]
  unfold Surroundings.changeOf
  rw [hpath]
  rcases object?_cases h.objects (fun o p hop => hop.1) id with
    ⟨ho, hp⟩ | ⟨o, p, ho, hp, hop⟩
  · rw [ho, hp]
  · have hview : p.view (c.attrs o.entity) = o.view (c.attrs o.entity) := by
      rw [Obj.view, Obj.view, hop.2.2]
    rw [ho, hp]
    simp only [Option.bind_eq_bind, Option.bind_some, hop.2.1, hview]

/-- So do the writes that are queued. -/
theorem Settles.writeOf_eq {s t : Session} (h : Settles s t) (c : Surroundings)
    (action : Action) (id : Nat) : c.writeOf t action id = c.writeOf s action id := by
  rw [Surroundings.writeOf_eq_changeOf, Surroundings.writeOf_eq_changeOf, h.changeOf_eq]

theorem breakInnermost_frame (c : Surroundings) (s : Session) :
    (breakInnermost c s).queue = s.queue ∧ (breakInnermost c s).sent = s.sent ∧
      (breakInnermost c s).outline = s.outline.modifyHead (fun e => (e.1, .broken)) ∧
      (breakInnermost c s).created = s.created ∧
      (breakInnermost c s).savepoints = s.savepoints := by
  unfold breakInnermost outline
  cases hstack : s.stack with
  | nil => simp [hstack]
  | cons t outer => exact ⟨rfl, rfl, rfl, rfl, rfl⟩

/-- A flush that succeeds. -/
structure Flushed (c : Surroundings) (s t : Session) : Prop where
  queue : t.queue = s.queue ++ c.written s t
  heard : Hears c s t
  outline : t.outline = s.outline
  created : t.created = s.created
  savepoints : t.savepoints = s.savepoints
  sound : t.Sound

/-- A flush that fails. -/
structure Aborted (c : Surroundings) (s t : Session) : Prop where
  queue : ∃ ws, t.queue = s.queue ++ ws ∧ ∀ w ∈ ws, w.path = s.path
  heard : Hears c s t
  outline : t.outline = s.outline.modifyHead fun e => (e.1, .broken)
  created : t.created = s.created
  savepoints : t.savepoints = s.savepoints
  sound : t.Sound

/-- A flush before it comes to its end: writes may have been captured. -/
structure Toils (c : Surroundings) (s t : Session) : Prop where
  queue : ∃ ws, t.queue = s.queue ++ ws ∧ ∀ w ∈ ws, w.path = s.path
  heard : Hears c s t
  opens : Opens s t
  sound : s.Sound → t.Sound

theorem Works.toils {c : Surroundings} {ids : List Nat} {s t : Session} (h : Works c ids s t) :
    Toils c s t where
  queue := ⟨[], by rw [h.queue, List.append_nil], fun w hw => absurd hw List.not_mem_nil⟩
  heard := h.heard
  opens := h.opens
  sound := h.sound

end Session

namespace Surroundings

open Session

/-- The rows of all tables are written. -/
theorem follows_forM_save (c : Surroundings) (s : Session) :
    Exec.Follows (Works c s.fresh) ((c.catalog.baseNames.map (c.planFor s)).forM c.save) := by
  refine Exec.follows_forM fun plan hplan => c.follows_save s.fresh ?_
  obtain ⟨base, _, rfl⟩ := List.mem_map.mp hplan
  exact c.inserted_subset_fresh s base

/-- The writes of a flush that comes to its end are those of the session after it. -/
theorem flushed_of_collect (c : Surroundings) {s u v : Session} (hworks : Works c s.fresh s u)
    (hs : s.Sound) (hstack : s.stack ≠ []) (h : c.collect u = (.ok (), v)) :
    Flushed c s (c.conclude v) := by
  obtain ⟨hreads, ws, hqueue, _, hws⟩ := c.collect_queued h (hworks.sound hs)
    (hworks.opens.stack_ne_nil hstack)
  have hopens := hworks.opens.trans hreads.stays.opens
  have hsettled := settles_conclude c v
  have hsound : SoundFor [] v :=
    (hreads.stays.sound (hworks.sound hs)).mono fun id hid => absurd hid List.not_mem_nil
  have hwritten : c.written u v = c.written s (c.conclude v) := by
    rw [written, written, hworks.fresh, hworks.marked,
      hworks.modified_map_id hs fun id hid => hid]
    simp only [hsettled.writeOf_eq c]
  refine { queue := ?queue,
           heard := hworks.heard.trans (Hears.of_sent c (hsettled.sent.trans hreads.stays.sent)),
           outline := hsettled.outline.trans (hopens.outline_eq hstack),
           created := hsettled.created.trans (hopens.created_eq hstack),
           savepoints := hsettled.savepoints.trans hopens.savepoints,
           sound := hsettled.sound hsound }
  case queue => rw [hsettled.queue, hqueue, hworks.queue, hws rfl v (Reads.refl c v), hwritten]

/-- The work of a flush while it goes on. -/
theorem flushWork_spec (c : Surroundings) {s t : Session} {r : Except Failure Unit}
    (h : c.flushWork s = (r, t)) (hs : s.Sound) (hstack : s.stack ≠ []) :
    match r with
    | .ok _ => Flushed c s t
    | .error _ => Toils c s t := by
  have hremoves : Exec.Follows (Works c s.fresh)
      ((c.catalog.baseNames.map (c.planFor s)).forM c.remove) :=
    Exec.follows_forM fun plan _ => c.follows_remove s.fresh plan
  unfold flushWork at h
  rw [Exec.bind_apply, Exec.get_apply] at h
  dsimp only at h
  rw [Exec.bind_apply] at h
  have h₁ := c.follows_forM_save s s
  rcases hsave : (c.catalog.baseNames.map (c.planFor s)).forM c.save s with ⟨q, s₁⟩
  rw [hsave] at h h₁
  cases q with
  | error e =>
      obtain ⟨rfl, rfl⟩ := Prod.mk.inj h
      exact h₁.toils
  | ok q =>
      dsimp only at h
      rw [Exec.bind_apply] at h
      have h₂ := trans_of (Works c s.fresh) h₁ (hremoves s₁)
      rcases hremove : (c.catalog.baseNames.map (c.planFor s)).forM c.remove s₁ with ⟨q, s₂⟩
      rw [hremove] at h h₂
      cases q with
      | error e =>
          obtain ⟨rfl, rfl⟩ := Prod.mk.inj h
          exact h₂.toils
      | ok q =>
          dsimp only at h
          rw [Exec.bind_apply] at h
          rcases hcollect : c.collect s₂ with ⟨q, s₃⟩
          rw [hcollect] at h
          cases q with
          | error e =>
              obtain ⟨rfl, rfl⟩ := Prod.mk.inj h
              obtain ⟨hreads, ws, hqueue, hpaths, _⟩ := c.collect_queued hcollect
                (h₂.sound hs) (h₂.opens.stack_ne_nil hstack)
              have hpath : s₂.path = s.path := by
                rw [path_eq, path_eq, h₂.opens.outline_eq hstack]
              exact ⟨⟨ws, by rw [hqueue, h₂.queue], fun w hw => (hpaths w hw).trans hpath⟩,
                h₂.heard.trans (Hears.of_sent c hreads.stays.sent),
                h₂.opens.trans hreads.stays.opens, hreads.stays.sound ∘ h₂.sound⟩
          | ok q =>
              obtain ⟨rfl, rfl⟩ := Prod.mk.inj h
              exact c.flushed_of_collect h₂ hs hstack hcollect

/-- The work of a flush; when it fails the innermost transaction is left to be rolled
back. -/
def attempt (c : Surroundings) : Exec Unit :=
  tryCatch c.flushWork fun e => do
    modify (Session.breakInnermost c)
    throw e

theorem flush_eq (c : Surroundings) :
    c.flush = (do
      if (← get).isClean then return ()
      else
        modify Session.begin
        Exec.requireActive
        c.attempt) := rfl

theorem attempt_spec (c : Surroundings) {s t : Session} {r : Except Failure Unit}
    (h : c.attempt s = (r, t)) (hs : s.Sound) (hstack : s.stack ≠ []) :
    match r with
    | .ok _ => Flushed c s t
    | .error _ => Aborted c s t := by
  unfold attempt at h
  rw [Exec.tryCatch_apply] at h
  rcases hwork : c.flushWork s with ⟨q, u⟩
  have hspec := c.flushWork_spec hwork hs hstack
  rw [hwork] at h
  cases q with
  | ok q =>
      obtain ⟨rfl, rfl⟩ := Prod.mk.inj h
      exact hspec
  | error e =>
      obtain ⟨rfl, rfl⟩ := Prod.mk.inj h
      have htoils : Toils c s u := hspec
      obtain ⟨ws, hqueue, hpaths⟩ := htoils.queue
      obtain ⟨hbqueue, hbsent, hboutline, hbcreated, hbsavepoints⟩ := breakInnermost_frame c u
      refine ⟨⟨ws, hbqueue.trans hqueue, hpaths⟩, htoils.heard.trans (Hears.of_sent c hbsent),
        ?_, ?_, hbsavepoints.trans htoils.opens.savepoints, ?_⟩
      · exact hboutline.trans (by rw [htoils.opens.outline_eq hstack])
      · exact hbcreated.trans (htoils.opens.created_eq hstack)
      · exact sound_breakInnermost (htoils.sound hs) c

end Surroundings

end Typeahead
