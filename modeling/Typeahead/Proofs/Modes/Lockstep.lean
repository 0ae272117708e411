import Typeahead.Proofs.Mirror.Changing
import Typeahead.Proofs.Modes.Callbacks
import Typeahead.Proofs.Session.Ignoring

/-!
# Both modes in step

The same flush in both modes, in sessions that differ in their writes only.  As long as no object
has to be read again, capturing a write touches nothing but the writes, so that the sessions after
the flush differ in their writes only: `Exec.Abreast`.
-/

namespace Typeahead

namespace Session

/-- No object has to be read again. -/
structure Loaded (s : Session) : Prop where
  sound : s.Sound
  present : ∀ o ∈ s.objects, o.expired = false

theorem Loaded.of_eq {s t : Session} (h : s.Loaded) (hobjects : t.objects = s.objects)
    (hfresh : t.fresh = s.fresh) : t.Loaded where
  sound := by
    rw [Sound, hfresh]
    exact h.sound.of_objects_eq hobjects
  present := by
    rw [hobjects]
    exact h.present

theorem Regular.loaded {s : Session} {name : String} {t : Table} (h : s.Regular name t) :
    s.Loaded :=
  ⟨h.sound, fun o ho => (h.objects o ho).present⟩

/-- Writes were queued or sent at most. -/
def Posts (s t : Session) : Prop := s.Loaded → ∃ queue sent, t = s.withWrites queue sent

instance : IsPreorder Session Posts where
  refl s _ := ⟨s.queue, s.sent, rfl⟩
  trans s t u h k hs := by
    obtain ⟨queue, sent, rfl⟩ := h hs
    obtain ⟨queue', sent', rfl⟩ := k (hs.of_eq rfl rfl)
    exact ⟨queue', sent', rfl⟩

end Session

namespace Exec

open Session

/-- Two computations go abreast: whenever the first succeeds in a loaded session and the second
in one that differs in its writes only, so do the sessions after them. -/
def Abreast (x y : Exec Unit) : Prop :=
  ∀ ⦃s t u : Session⦄ ⦃queue : List PendingWrite⦄ ⦃sent : List Call⦄, s.Loaded →
    x s = (.ok (), t) → y (s.withWrites queue sent) = (.ok (), u) →
      t.Loaded ∧ ∃ queue' sent', u = t.withWrites queue' sent'

variable {x y z w : Exec Unit}

/-- What leaves the writes alone goes abreast with itself. -/
theorem Ignores.abreast (hx : Ignores x) (hloaded : Follows (Preserves Loaded) x) :
    Abreast x x := by
  intro s t u queue sent hs hst hsu
  rw [hx s queue sent, hst] at hsu
  refine ⟨?_, queue, sent, (congrArg Prod.snd hsu).symm⟩
  have ht := hloaded s hs
  rwa [hst] at ht

/-- Two computations that touch the writes only go abreast. -/
theorem abreast_of_posts (hx : Follows Posts x) (hy : Follows Posts y) : Abreast x y := by
  intro s t u queue sent hs hst hsu
  have ht := hx s hs
  have hu := hy (s.withWrites queue sent) (hs.of_eq rfl rfl)
  rw [hst] at ht
  rw [hsu] at hu
  obtain ⟨queue₁, sent₁, rfl⟩ := ht
  obtain ⟨queue₂, sent₂, rfl⟩ := hu
  exact ⟨hs.of_eq rfl rfl, queue₂, sent₂, rfl⟩

theorem abreast_bind (hxy : Abreast x y) (hzw : Abreast z w) :
    Abreast (x >>= fun _ => z) (y >>= fun _ => w) := by
  intro s t u queue sent hs hst hsu
  obtain ⟨_, s', hx, hz⟩ := bind_eq_ok hst
  obtain ⟨_, u', hy, hw⟩ := bind_eq_ok hsu
  obtain ⟨hs', queue', sent', rfl⟩ := hxy hs hx hy
  exact hzw hs' hz hw

theorem abreast_forM {γ : Type} {f g : γ → Exec Unit} {cs : List γ}
    (hfg : ∀ c ∈ cs, Abreast (f c) (g c)) : Abreast (cs.forM f) (cs.forM g) := by
  induction cs with
  | nil =>
      intro s t u queue sent hs hst hsu
      obtain rfl : s = t := congrArg Prod.snd hst
      exact ⟨hs, queue, sent, (congrArg Prod.snd hsu).symm⟩
  | cons c cs ih =>
      rw [forM_cons, forM_cons]
      have hcs : ∀ d ∈ cs, Abreast (f d) (g d) := fun d hd => hfg d (List.mem_cons_of_mem c hd)
      exact abreast_bind (hfg c List.mem_cons_self) (ih hcs)

end Exec

namespace Surroundings

open Session Exec

variable {c : Surroundings} {s t u : Session} {action : Action} {id : Nat}

theorem permits_loaded (c : Surroundings) (ids : List Nat) : Permits c ids (Preserves Loaded) where
  reads h _ hs := by
    have hobjects := h.objects_eq hs.sound hs.present
    exact hs.of_eq hobjects h.fresh
  rows _ _ hs := hs.of_eq rfl rfl
  numbers {s o} t key ho hid hs := by
    have hworks := (permits_works c ids).numbers t key ho hid
    refine ⟨hworks.sound hs.sound, fun p hp => ?_⟩
    rcases mem_put (p := { o with values := numberedValues o t key }) hp with rfl | ⟨hp, _⟩
    · exact hs.present o (mem_of_object?_eq_some ho).1
    · exact hs.present p hp

/-- Capturing a write reads nothing again. -/
theorem posts_capture (c : Surroundings) (x : Searchable) (action : Action) (id : Nat) :
    Follows Posts (c.capture x action id) := by
  intro s hs
  refine ⟨s.queue, s.sent, ?_⟩
  change (c.capture x action id s).2 = s
  unfold capture
  rw [bind_apply]
  cases ho : s.object? id with
  | none =>
      have hload : c.load id (neededAttrs x action) s = (.error (.missingKey (.int id)), s) := by
        unfold load
        rw [bind_apply, object_apply, ho]
      rw [hload]
  | some o =>
      obtain ⟨hmem, rfl⟩ := mem_of_object?_eq_some ho
      rw [c.load_present ho (hs.present o hmem)]
      dsimp only
      rw [bind_apply, ofExcept_apply]
      cases x.index.bodyFor action (o.view (c.attrs o.entity)) with
      | error e => rfl
      | ok body =>
          dsimp only
          rw [bind_apply, ofExcept_apply]
          cases Index.documentId (o.view (c.attrs o.entity)) with
          | error e => rfl
          | ok key => rfl

/-- Listeners touch the writes only. -/
theorem posts_announce (c : Surroundings) (action : Action) (id : Nat) :
    Follows Posts (c.announce action id) := by
  rw [announce_eq]
  refine follows_bind (follows_object id) fun o => ?_
  cases c.catalog.searchable? o.entity with
  | none => exact follows_pure _
  | some x =>
      dsimp only
      split
      · exact follows_pure _
      · refine follows_forM fun _ _ => ?_
        refine follows_bind (posts_capture c x action id) fun parts s _ => ?_
        obtain ⟨outcome, hsend, _⟩ := c.send_spec ⟨s.path, x, action, parts.1, parts.2⟩ s
        dsimp only at hsend ⊢
        rw [hsend]
        exact ⟨s.queue, _, rfl⟩

/-- So does queueing a change. -/
theorem posts_enqueue (c : Surroundings) (action : Action) (id : Nat) :
    Follows Posts (c.enqueue action id) := by
  refine follows_bind (follows_object id) fun o => ?_
  cases c.queueing? o.entity with
  | none => exact follows_pure _
  | some x =>
      dsimp only
      split
      · exact follows_pure _
      · exact follows_bind (posts_capture c x action id) fun parts =>
          follows_modify fun s _ => ⟨_, s.sent, rfl⟩

theorem posts_collect (c : Surroundings) : Follows Posts c.collect := by
  have henqueue (action : Action) (ids : List Nat) :
      Follows Posts (ids.forM (c.enqueue action)) :=
    follows_forM fun id _ => posts_enqueue c action id
  refine follows_get_bind fun s => ?_
  exact follows_bind (henqueue .index _) (fun _ =>
    follows_bind (henqueue .update _) fun _ => henqueue .delete _) s

variable (c : Surroundings) (b d : Bool)

/-- Rows are written in the same way in both modes. -/
theorem abreast_save (plan : TablePlan) :
    Abreast ((c.withCallbacks b).save plan) ((c.withCallbacks d).save plan) := by
  have hloaded := permits_loaded c plan.inserted
  have hannounce (action : Action) (xs : List Nat) :
      Abreast (xs.forM ((c.withCallbacks b).announce action))
        (xs.forM ((c.withCallbacks d).announce action)) :=
    abreast_forM fun id _ =>
      abreast_of_posts (posts_announce _ action id) (posts_announce _ action id)
  unfold save
  simp only [overwriteRow_withCallbacks, updateRow_withCallbacks, insertRow_withCallbacks]
  refine abreast_bind (abreast_forM fun id _ =>
    (c.ignores_overwriteRow id).abreast (follows_overwriteRow hloaded id)) ?_
  refine abreast_bind (abreast_forM fun id _ =>
    (c.ignores_updateRow id).abreast (follows_updateRow hloaded id)) ?_
  refine abreast_bind (abreast_forM fun id hid =>
    (c.ignores_insertRow id).abreast (follows_insertRow hloaded hid)) ?_
  exact abreast_bind (hannounce .index _) (abreast_bind (hannounce .update _) (hannounce .update _))

theorem abreast_remove (plan : TablePlan) :
    Abreast ((c.withCallbacks b).remove plan) ((c.withCallbacks d).remove plan) := by
  unfold remove
  simp only [removeRow_withCallbacks]
  refine abreast_bind (abreast_forM fun id _ =>
    (c.ignores_removeRow id).abreast (follows_removeRow (permits_loaded c []) id)) ?_
  exact abreast_forM fun id _ =>
    abreast_of_posts (posts_announce _ .delete id) (posts_announce _ .delete id)

section Flush

variable {c} {queue : List PendingWrite} {sent : List Call}

/-- The plans of a flush are the same in both modes. -/
theorem plans_withCallbacks (s : Session) (queue : List PendingWrite) (sent : List Call) :
    (c.withCallbacks b).plans (s.withWrites queue sent) = c.plans s := by
  rw [plans, plans, planFor_withCallbacks, withCallbacks, Catalog.baseNames_withCallbacks]
  rfl

theorem abreast_flushWork (hs : s.Loaded)
    (hst : (c.withCallbacks b).flushWork s = (.ok (), t))
    (hsu : (c.withCallbacks d).flushWork (s.withWrites queue sent) = (.ok (), u)) :
    ∃ queue' sent', u = t.withWrites queue' sent' := by
  have hplans₁ := plans_withCallbacks (c := c) b s s.queue s.sent
  have hplans₂ := plans_withCallbacks (c := c) d s queue sent
  unfold flushWork at hst hsu
  rw [bind_apply, get_apply] at hst hsu
  dsimp only at hst hsu
  rw [← plans] at hst hsu
  rw [hplans₂] at hsu
  have hst : ((c.plans s).forM (c.withCallbacks b).save >>= fun _ =>
      (c.plans s).forM (c.withCallbacks b).remove >>= fun _ =>
        (c.withCallbacks b).collect >>= fun _ =>
          modify (c.withCallbacks b).conclude : Exec Unit) s = (.ok (), t) := by
    rw [← hplans₁]
    exact hst
  obtain ⟨_, t₁, hsave, hst⟩ := bind_eq_ok hst
  obtain ⟨_, u₁, hsave', hsu⟩ := bind_eq_ok hsu
  obtain ⟨ht₁, _, _, rfl⟩ := abreast_forM (fun plan _ => c.abreast_save b d plan) hs hsave hsave'
  obtain ⟨_, t₂, hremove, hst⟩ := bind_eq_ok hst
  obtain ⟨_, u₂, hremove', hsu⟩ := bind_eq_ok hsu
  obtain ⟨ht₂, _, _, rfl⟩ :=
    abreast_forM (fun plan _ => c.abreast_remove b d plan) ht₁ hremove hremove'
  obtain ⟨_, t₃, hcollect, hst⟩ := bind_eq_ok hst
  obtain ⟨_, u₃, hcollect', hsu⟩ := bind_eq_ok hsu
  obtain ⟨ht₃, queue', sent', rfl⟩ :=
    abreast_of_posts (posts_collect _) (posts_collect _) ht₂ hcollect hcollect'
  rw [conclude_withCallbacks] at hst hsu
  obtain rfl : c.conclude t₃ = t := congrArg Prod.snd hst
  obtain rfl : c.conclude (t₃.withWrites queue' sent') = u := congrArg Prod.snd hsu
  exact ⟨queue', sent', c.conclude_withWrites t₃ queue' sent'⟩

end Flush

end Surroundings

end Typeahead
