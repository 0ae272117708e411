import Typeahead.Proofs.Listening.Flushing
import Typeahead.Proofs.Session.Boundaries
import Typeahead.Proofs.Session.Delivery

/-!
# Until the commit

A queued write stays in the queue until the commit, unless something is undone, and a commit
that succeeds sends every queued write once.
-/

namespace Typeahead

namespace Command

/-- Whether a command leaves the queued writes in the queue: it ends no transaction but by
releasing a savepoint. -/
def isLasting : Command → Bool
  | .commit | .rollback | .close | .rollbackTo _ | .leave _ => false
  | _ => true

end Command

namespace Surroundings

open Session

/-- A relation that every step of a flush keeps to, and with it the steps of a release. -/
structure Tolerates (c : Surroundings) (R : Session → Session → Prop) : Prop where
  permits : ∀ ids, Permits c ids R
  begins : ∀ s : Session, R s s.begin
  sends : ∀ (s : Session) (calls : List Call), R s { s with sent := calls }
  queues : ∀ (s : Session) (ws : List PendingWrite), R s { s with queue := s.queue ++ ws }
  concludes : ∀ s, R s (c.conclude s)
  breaks : ∀ s, R s (breakInnermost c s)
  merges : ∀ s : Session, R s s.mergeInnermost
  pushes : ∀ (s : Session) (savepoints : List (String × Nat)),
    R s { s.push with savepoints := savepoints }

section Tolerates

variable {c : Surroundings} {R : Session → Session → Prop} [IsPreorder Session R]
  (hR : c.Tolerates R)

include hR

omit [IsPreorder Session R] in
theorem follows_capture (x : Searchable) (action : Action) (id : Nat) :
    Exec.Follows R (c.capture x action id) := by
  intro s
  rcases hcapture : c.capture x action id s with ⟨r, t⟩
  obtain ⟨hreads, hqueue, _⟩ := c.capture_reads hcapture
  exact (hR.permits []).reads hreads hqueue

theorem follows_announce_of_tolerates (action : Action) (id : Nat) :
    Exec.Follows R (c.announce action id) := by
  rw [announce_eq]
  refine Exec.follows_bind (Exec.follows_object id) fun o => ?_
  cases c.catalog.searchable? o.entity with
  | none => exact Exec.follows_pure _
  | some x =>
      dsimp only
      split
      · exact Exec.follows_pure _
      · refine Exec.follows_forM fun _ _ =>
          Exec.follows_bind (follows_capture hR x action id) fun parts s => ?_
        obtain ⟨outcome, hsend, _⟩ := c.send_spec ⟨s.path, x, action, parts.1, parts.2⟩ s
        dsimp only at hsend ⊢
        rw [hsend]
        exact hR.sends s _

theorem follows_enqueue (action : Action) (id : Nat) : Exec.Follows R (c.enqueue action id) := by
  refine Exec.follows_bind (Exec.follows_object id) fun o => ?_
  cases c.queueing? o.entity with
  | none => exact Exec.follows_pure _
  | some x =>
      dsimp only
      split
      · exact Exec.follows_pure _
      · refine Exec.follows_bind (follows_capture hR x action id) fun parts => ?_
        exact Exec.follows_modify fun s => hR.queues s _

theorem follows_save_of_tolerates (plan : TablePlan) : Exec.Follows R (c.save plan) := by
  have hpermits := hR.permits plan.inserted
  have hannounce (action : Action) (xs : List Nat) :
      Exec.Follows R (xs.forM (c.announce action)) :=
    Exec.follows_forM fun id _ => follows_announce_of_tolerates hR action id
  refine Exec.follows_bind
    (Exec.follows_forM fun id _ => follows_overwriteRow hpermits id) fun _ => ?_
  refine Exec.follows_bind (Exec.follows_forM fun id _ => follows_updateRow hpermits id) fun _ => ?_
  refine Exec.follows_bind
    (Exec.follows_forM fun id hid => follows_insertRow hpermits hid) fun _ => ?_
  refine Exec.follows_bind (hannounce .index _) fun _ => ?_
  exact Exec.follows_bind (hannounce .update _) fun _ => hannounce .update _

theorem follows_flushWork : Exec.Follows R c.flushWork := by
  have henqueue (action : Action) (ids : List Nat) :
      Exec.Follows R (ids.forM (c.enqueue action)) :=
    Exec.follows_forM fun id _ => follows_enqueue hR action id
  have hremove (plan : TablePlan) : Exec.Follows R (c.remove plan) :=
    Exec.follows_bind (Exec.follows_forM fun id _ => follows_removeRow (hR.permits []) id)
      fun _ => Exec.follows_forM fun id _ => follows_announce_of_tolerates hR .delete id
  refine Exec.follows_get_bind fun s => ?_
  refine Exec.follows_bind
    (Exec.follows_forM fun plan _ => follows_save_of_tolerates hR plan) (fun _ => ?_) s
  refine Exec.follows_bind (Exec.follows_forM fun plan _ => hremove plan) fun _ => ?_
  refine Exec.follows_bind (Exec.follows_get_bind fun u => ?_) fun _ =>
    Exec.follows_modify hR.concludes
  exact Exec.follows_bind (henqueue .index _) (fun _ =>
    Exec.follows_bind (henqueue .update _) fun _ => henqueue .delete _) u

/-- Whether a flush succeeds or not, it keeps to the relation. -/
theorem follows_flush : Exec.Follows R c.flush := by
  rw [flush_eq]
  refine Exec.follows_get_bind fun s => ?_
  split
  · exact refl_of R s
  · refine Exec.follows_bind (Exec.follows_modify hR.begins) (fun _ => ?_) s
    refine Exec.follows_bind Exec.follows_requireActive fun _ u => ?_
    have hwork := follows_flushWork hR u
    rw [attempt, Exec.tryCatch_apply]
    rcases hv : c.flushWork u with ⟨r, v⟩
    rw [hv] at hwork
    cases r with
    | ok a => exact hwork
    | error e => exact trans_of R hwork (hR.breaks v)

theorem follows_proceed : Exec.Follows R c.proceed :=
  Exec.follows_bind Exec.follows_requireActive fun _ => follows_flush hR

theorem follows_releaseInnermost : Exec.Follows R c.releaseInnermost := by
  rw [c.releaseInnermost_eq]
  exact Exec.follows_bind (follows_proceed hR) fun _ => Exec.follows_modify hR.merges

theorem follows_beginNested (name : String) : Exec.Follows R (c.beginNested name) := by
  refine Exec.follows_bind (Exec.follows_modify hR.begins) fun _ => ?_
  exact Exec.follows_bind (follows_proceed hR) fun _ =>
    Exec.follows_modify fun s => hR.pushes s ((name, s.created) :: s.savepoints)

omit hR in
theorem follows_savepoint (name : String) : Exec.Follows R (savepoint name) := by
  refine Exec.follows_get_bind fun s => ?_
  cases s.savepoints.find? fun e => e.1 == name with
  | none => exact refl_of R s
  | some e => exact refl_of R s

theorem follows_release (name : String) : Exec.Follows R (c.release name) := by
  refine Exec.follows_bind (follows_savepoint name) fun id => Exec.follows_get_bind fun s => ?_
  cases s.stack.find? fun t => t.id == id with
  | none => exact refl_of R s
  | some t =>
      dsimp only
      split
      · exact refl_of R s
      · exact Exec.follows_bind (Exec.follows_forM fun _ _ => follows_releaseInnermost hR)
          (fun _ => follows_releaseInnermost hR) s

theorem follows_prepare : Exec.Follows R c.prepare := by
  refine Exec.follows_bind (Exec.follows_modify hR.begins) fun _ => ?_
  refine Exec.follows_get_bind fun s => ?_
  exact Exec.follows_bind (Exec.follows_forM fun _ _ => follows_releaseInnermost hR)
    (fun _ => follows_proceed hR) s

end Tolerates

/-- A command that gives no page. -/
theorem follows_done {R : Session → Session → Prop} [IsPreorder Session R] {x : Exec Unit}
    (hx : Exec.Follows R x) :
    Exec.Follows R (x >>= fun _ => pure none : Exec (Option Page)) :=
  Exec.follows_bind hx fun _ => Exec.follows_pure _

end Surroundings

namespace Session

/-- Queued writes stay in the queue. -/
def Retains (s t : Session) : Prop := s.queue <+: t.queue

instance : IsPreorder Session Retains where
  refl s := List.prefix_refl s.queue
  trans _ _ _ := List.IsPrefix.trans

theorem retains_of_eq {s t : Session} (h : t.queue = s.queue) : Retains s t :=
  ⟨[], by rw [List.append_nil, h]⟩

theorem tolerates_retains (c : Surroundings) : c.Tolerates Retains where
  permits _ :=
    { reads := fun _ hqueue => retains_of_eq hqueue
      rows := fun _ _ => retains_of_eq rfl
      numbers := fun _ _ _ _ => retains_of_eq rfl }
  begins s := retains_of_eq s.begin_queue
  sends _ _ := retains_of_eq rfl
  queues _ _ := List.prefix_append _ _
  concludes s := retains_of_eq (settles_conclude c s).queue
  breaks s := retains_of_eq (breakInnermost_frame c s).1
  merges s := retains_of_eq (mergeInnermost_keeps s).1
  pushes _ _ := retains_of_eq rfl

end Session

namespace Surroundings

open Session

variable (c : Surroundings)

/-- A command that undoes nothing leaves queued writes in the queue, whether it succeeds or
not. -/
theorem retains_perform {command : Command} (h : command.isLasting = true) :
    Exec.Follows Retains (c.perform command) := by
  have hretains := tolerates_retains c
  have hidle {x : Exec Unit} (hx : Exec.Follows Idles x) : Exec.Follows Retains x :=
    fun s => retains_of_eq (hx s).queue
  cases command with
  | commit => cases h
  | rollback => cases h
  | close => cases h
  | rollbackTo name => cases h
  | leave name => cases h
  | add object entity values => exact follows_done (hidle (c.follows_add object entity values))
  | readd object => exact follows_done (hidle (c.follows_readd object))
  | set object attr value => exact follows_done (hidle (c.follows_set object attr value))
  | delete object => exact follows_done (hidle (c.follows_delete object))
  | flush => exact follows_done (follows_flush hretains)
  | beginNested name => exact follows_done (follows_beginNested hretains name)
  | release name => exact follows_done (follows_release hretains name)
  | search entity text options =>
      refine Exec.follows_bind (fun s => ?_) fun _ => Exec.follows_pure _
      exact retains_of_eq (c.follows_search entity text options s).queue

/-- The session after several commands, each of them done whether those before it failed or
not. -/
def performAll (commands : List Command) (s : Session) : Session :=
  commands.foldl (fun s command => (c.perform command s).2) s

theorem retains_performAll {commands : List Command}
    (h : ∀ command ∈ commands, command.isLasting = true) (s : Session) :
    Retains s (c.performAll commands s) := by
  induction commands generalizing s with
  | nil => exact refl_of Retains s
  | cons command commands ih =>
      refine trans_of Retains (c.retains_perform (h command List.mem_cons_self) s) ?_
      exact ih (fun other hother => h other (List.mem_cons_of_mem command hother)) _

variable {c}

theorem releaseInnermost_ok {s t : Session} (h : c.releaseInnermost s = (.ok (), t)) :
    ∃ u, c.flush s = (.ok (), u) ∧ t = u.mergeInnermost := by
  rw [c.releaseInnermost_eq] at h
  obtain ⟨_, u, hproceed, h⟩ := Exec.bind_eq_ok h
  exact ⟨u, flush_of_proceed hproceed, (congrArg Prod.snd h).symm⟩

/-- Releasing savepoints with nothing to flush sends and queues nothing. -/
theorem forM_release_of_isClean {ts : List Transaction} {s t : Session}
    (h : ts.forM (fun _ => c.releaseInnermost) s = (.ok (), t)) (hclean : s.isClean = true) :
    t.sent = s.sent ∧ t.queue = s.queue ∧ t.isClean = true := by
  induction ts generalizing s with
  | nil =>
      obtain rfl : s = t := congrArg Prod.snd h
      exact ⟨rfl, rfl, hclean⟩
  | cons x ts ih =>
      obtain ⟨u, hfirst, hrest⟩ := Exec.forM_cons_ok h
      obtain ⟨v, hflush, rfl⟩ := releaseInnermost_ok hfirst
      rw [flush_of_isClean c hclean] at hflush
      obtain rfl : s = v := congrArg Prod.snd hflush
      obtain ⟨hqueue, hsent, hmerged, _⟩ := mergeInnermost_keeps s
      obtain ⟨hsent', hqueue', hdone⟩ := ih hrest (hmerged.trans hclean)
      exact ⟨hsent'.trans hsent, hqueue'.trans hqueue, hdone⟩

/-- Releasing all savepoints and flushing is one flush, wherever it takes place. -/
theorem flush_of_forM_release {ts : List Transaction} {s t u : Session}
    (hrelease : ts.forM (fun _ => c.releaseInnermost) s = (.ok (), t))
    (hflush : c.flush t = (.ok (), u)) :
    ∃ v, c.flush s = (.ok (), v) ∧ u.sent = v.sent ∧ u.queue = v.queue := by
  cases ts with
  | nil =>
      obtain rfl : s = t := congrArg Prod.snd hrelease
      exact ⟨u, hflush, rfl, rfl⟩
  | cons x ts =>
      obtain ⟨w, hfirst, hrest⟩ := Exec.forM_cons_ok hrelease
      obtain ⟨v, hv, rfl⟩ := releaseInnermost_ok hfirst
      obtain ⟨hqueue, hsent, hmerged, _⟩ := mergeInnermost_keeps v
      obtain ⟨hsent', hqueue', hclean⟩ :=
        forM_release_of_isClean hrest (hmerged.trans (isClean_of_flush hv))
      rw [flush_of_isClean c hclean] at hflush
      obtain rfl : t = u := congrArg Prod.snd hflush
      exact ⟨v, hv, hsent'.trans hsent, hqueue'.trans hqueue⟩

/-- Releasing one transaction for each savepoint leaves the root transaction. -/
theorem length_of_forM_release {ts : List Transaction} {s t : Session}
    (h : ts.forM (fun _ => c.releaseInnermost) s = (.ok (), t)) (hs : s.Sound)
    (hlength : s.outline.length = ts.length + 1) : t.outline.length = 1 ∧ t.Sound := by
  induction ts generalizing s with
  | nil =>
      obtain rfl : s = t := congrArg Prod.snd h
      exact ⟨hlength, hs⟩
  | cons x ts ih =>
      obtain ⟨u, hfirst, hrest⟩ := Exec.forM_cons_ok h
      obtain ⟨v, hflush, rfl⟩ := releaseInnermost_ok hfirst
      have hstack : s.stack ≠ [] := by
        rw [← List.length_pos_iff, ← s.length_outline, hlength]
        exact Nat.succ_pos _
      obtain ⟨houtline, hsound⟩ := outline_of_flush hflush hs hstack
      have htail : v.outline.tail.length = ts.length + 1 := by
        rw [houtline, List.length_tail, hlength, List.length_cons, Nat.add_sub_cancel]
      have hne : v.outline.tail ≠ [] := List.ne_nil_of_length_eq_add_one htail
      have hcloses := closes_mergeInnermost hne
      refine ih hrest (hcloses.sound hsound) ?_
      rw [hcloses.outline, List.drop_one, htail]

/-- A commit that succeeds flushes once and then sends every queued write once. -/
theorem sends_of_commit {u v : Session} (henabled : c.enabled = true) (hu : u.Sound)
    (h : c.commit u = (.ok (), v)) :
    ∃ w, c.flush u.begin = (.ok (), w) ∧
      v.sent = w.sent ++ w.queue.map PendingWrite.call ∧ v.queue = [] := by
  obtain ⟨_, u₂, hprepare, hsettle⟩ := Exec.bind_eq_ok h
  unfold prepare at hprepare
  rw [Exec.bind_apply, Exec.modify_apply] at hprepare
  dsimp only at hprepare
  rw [Exec.bind_apply, Exec.get_apply] at hprepare
  dsimp only at hprepare
  obtain ⟨_, u₁, hrelease, hproceed⟩ := Exec.bind_eq_ok hprepare
  have hflush := flush_of_proceed hproceed
  have hopen : 0 < u.begin.stack.length := List.length_pos_iff.mpr u.begin_stack_ne_nil
  obtain ⟨hlength, hsound⟩ := length_of_forM_release hrelease ((stays_begin u).sound hu) (by
    rw [length_outline, List.length_dropLast, Nat.sub_add_cancel hopen])
  obtain ⟨w, hw, hsent, hqueue⟩ := flush_of_forM_release hrelease hflush
  obtain ⟨⟨root, state⟩, hone⟩ := List.length_eq_one_iff.mp hlength
  have hstack : u₁.stack ≠ [] := by
    rw [← List.length_pos_iff, ← u₁.length_outline, hlength]
    exact Nat.one_pos
  obtain ⟨hactive, _⟩ := c.proceed_spec hproceed hsound hstack
  obtain rfl : state = .active := isActive_iff.mp hactive (root, state) (by rw [hone]; rfl)
  have houtline : u₂.outline = [(root, .active)] :=
    (outline_of_flush hflush hsound hstack).1.trans hone
  obtain ⟨outcome, t, sent, hsettled, hsends⟩ := settle_spec c houtline
  obtain ⟨rfl, rfl⟩ := Prod.mk.inj (hsettled.symm.trans hsettle)
  refine ⟨w, hw, ?_, hsends.queue⟩
  rw [hsends.calls, hsends.enabled henabled rfl, hsent, hqueue]

end Surroundings

end Typeahead
