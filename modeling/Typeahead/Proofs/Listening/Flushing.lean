import Typeahead.Proofs.Listening.Queueing
import Typeahead.Proofs.Mirror.Storing
import Typeahead.Proofs.Session.Clean

/-!
# What a flush sends

A flush goes through its tables and reports every change of a row to the listeners of the
object's class: first what it stored in each table, then what it removed.  Writes that wait
for the commit are queued after that, whether there are listeners or not.
-/

namespace Typeahead

namespace TablePlan

/-- The changes that listeners hear of once the rows of a table are stored. -/
def saved (plan : TablePlan) : List (Action × Nat) :=
  plan.inserted.map (fun id => (.index, id)) ++ plan.replacing.map (fun id => (.update, id)) ++
    plan.changed.map fun id => (.update, id)

/-- The changes that listeners hear of once rows of a table are removed. -/
def gone (plan : TablePlan) : List (Action × Nat) := plan.removed.map fun id => (.delete, id)

theorem mem_saved {plan : TablePlan} {change : Action × Nat} :
    change ∈ plan.saved ↔ change.1 = .index ∧ change.2 ∈ plan.inserted ∨
      change.1 = .update ∧ change.2 ∈ plan.replacing ∨
      change.1 = .update ∧ change.2 ∈ plan.changed := by
  obtain ⟨action, id⟩ := change
  simp only [saved, List.mem_append, List.mem_map, Prod.mk.injEq, or_assoc]
  constructor
  · rintro (⟨k, hk, rfl, rfl⟩ | ⟨k, hk, rfl, rfl⟩ | ⟨k, hk, rfl, rfl⟩)
    · exact Or.inl ⟨rfl, hk⟩
    · exact Or.inr (Or.inl ⟨rfl, hk⟩)
    · exact Or.inr (Or.inr ⟨rfl, hk⟩)
  · rintro (⟨rfl, hk⟩ | ⟨rfl, hk⟩ | ⟨rfl, hk⟩)
    · exact Or.inl ⟨id, hk, rfl, rfl⟩
    · exact Or.inr (Or.inl ⟨id, hk, rfl, rfl⟩)
    · exact Or.inr (Or.inr ⟨id, hk, rfl, rfl⟩)

end TablePlan

namespace Surroundings

open Session

/-- What a flush does to its tables, one after the other. -/
def plans (c : Surroundings) (s : Session) : List TablePlan :=
  c.catalog.baseNames.map (c.planFor s)

/-- The changes of a flush in the order in which listeners hear of them.  Updates without
changes are passed over. -/
def reported (c : Surroundings) (s : Session) : List (Action × Nat) :=
  ((c.plans s).flatMap TablePlan.saved ++ (c.plans s).flatMap TablePlan.gone).filter
    fun change => s.isDue change.1 change.2

section Plans

variable {c : Surroundings} {s : Session} {base : String} {id : Nat}

/-- A new object that is inserted has a table of its own and takes over no row. -/
theorem mem_inserted (h : id ∈ (c.planFor s base).inserted) :
    ∃ o, s.object? id = some o ∧ id ∈ s.fresh ∧ c.catalog.baseName o.entity = base ∧
      id ∉ (c.planFor s base).replacing := by
  obtain ⟨o, ho, rfl⟩ := List.mem_map.mp h
  obtain ⟨hpending, hfree⟩ := List.mem_filter.mp ho
  obtain ⟨homem, hbase⟩ := List.mem_filter.mp hpending
  obtain ⟨hfresh, hfind⟩ := mem_objectsOf.mp homem
  refine ⟨o, hfind, hfresh, by simpa using hbase, fun hreplacing => ?_⟩
  obtain ⟨p, hp, hpo⟩ := List.mem_map.mp hreplacing
  obtain ⟨hp, htakes⟩ := List.mem_filter.mp hp
  obtain ⟨_, hpfind⟩ := mem_objectsOf.mp (List.mem_filter.mp hp).1
  rw [hpo, hfind] at hpfind
  obtain rfl := Option.some.inj hpfind
  rw [htakes] at hfree
  cases hfree

/-- A changed object was stored before. -/
theorem mem_changed (h : id ∈ (c.planFor s base).changed) :
    ∃ o ∈ s.objects, o.id = id ∧ o.standing = .stored ∧ c.catalog.baseName o.entity = base := by
  obtain ⟨o, ho, hid⟩ := List.mem_map.mp h
  obtain ⟨hdirty, hbase⟩ := List.mem_filter.mp (Obj.mem_byKey.mp ho)
  obtain ⟨homem, hstored⟩ := List.mem_filter.mp hdirty
  simp only [Bool.and_eq_true, beq_iff_eq] at hstored hbase
  exact ⟨o, homem, hid, hstored.1.1, hbase⟩

theorem mem_replacing (h : id ∈ (c.planFor s base).replacing) :
    ∃ o, s.object? id = some o ∧ c.catalog.baseName o.entity = base := by
  obtain ⟨o, ho, rfl⟩ := List.mem_map.mp h
  obtain ⟨homem, hbase⟩ := List.mem_filter.mp (List.mem_filter.mp ho).1
  exact ⟨o, (mem_objectsOf.mp homem).2, by simpa using hbase⟩

/-- The changes to a table are those of objects whose class has that table. -/
theorem baseName_of_mem_saved (hs : s.Sound) {change : Action × Nat}
    (h : change ∈ (c.planFor s base).saved) :
    ∃ o, s.object? change.2 = some o ∧ c.catalog.baseName o.entity = base := by
  rcases TablePlan.mem_saved.mp h with ⟨_, hid⟩ | ⟨_, hid⟩ | ⟨_, hid⟩
  · obtain ⟨o, ho, _, hbase, _⟩ := mem_inserted hid
    exact ⟨o, ho, hbase⟩
  · exact mem_replacing hid
  · obtain ⟨o, homem, hid, _, hbase⟩ := mem_changed hid
    exact ⟨o, by rw [← hid]; exact hs.object?_eq homem, hbase⟩

/-- What is inserted for one table is not told of for another one. -/
theorem pairwise_plans (hs : s.Sound) (hnames : c.catalog.baseNames.Nodup) :
    (c.plans s).Pairwise fun p q => ∀ change ∈ p.saved, change.2 ∉ q.inserted := by
  refine List.pairwise_map.mpr (hnames.imp fun {a b} hab change hchange hid => ?_)
  obtain ⟨o, ho, hbase⟩ := baseName_of_mem_saved hs hchange
  obtain ⟨o', ho', _, hbase', _⟩ := mem_inserted hid
  obtain rfl := Option.some.inj (ho.symm.trans ho')
  exact hab (hbase.symm.trans hbase')

/-- An object whose update is told of is not inserted by the flush. -/
theorem notMem_inserted_of_update (hs : s.Sound) {plan : TablePlan} (hplan : plan ∈ c.plans s)
    (h : (.update, id) ∈ plan.saved) {other : TablePlan} (hother : other ∈ c.plans s) :
    id ∉ other.inserted := by
  obtain ⟨base, _, rfl⟩ := List.mem_map.mp hplan
  obtain ⟨base', _, rfl⟩ := List.mem_map.mp hother
  intro hid
  obtain ⟨o, ho, hfresh, hbase', hfree⟩ := mem_inserted hid
  rcases TablePlan.mem_saved.mp h with ⟨hindex, _⟩ | ⟨_, hreplacing⟩ | ⟨_, hchanged⟩
  · cases hindex
  · obtain ⟨p, hp, hbase⟩ := mem_replacing hreplacing
    obtain rfl := Option.some.inj (ho.symm.trans hp)
    rw [hbase.symm.trans hbase'] at hreplacing
    exact hfree hreplacing
  · obtain ⟨p, hpmem, rfl, hstored, _⟩ := mem_changed hchanged
    have hpending := (hs.objects p hpmem).pending hfresh
    rw [hstored] at hpending
    cases hpending

end Plans

section Tells

variable {c : Surroundings} {later : List Nat} {s t : Session}

/-- The calls of a loop over plans. -/
theorem told_flatMap (f : TablePlan → List (Action × Nat)) (plan : TablePlan)
    (plans : List TablePlan) (u : Session) :
    c.told (f plan) u ++ c.told (plans.flatMap f) u = c.told ((plan :: plans).flatMap f) u := by
  rw [← told_append, List.flatMap_cons]

variable (henabled : c.enabled = true)

include henabled

theorem tells_save (plan : TablePlan) (hlater : ∀ change ∈ plan.saved, change.2 ∉ later) :
    Tells c plan.inserted later (c.told plan.saved) (c.save plan) := by
  have hquiet := permits_quiet c plan.inserted
  have hstore : Exec.Follows (Quiet c plan.inserted) (do
      plan.replacing.forM c.overwriteRow
      plan.changed.forM c.updateRow
      plan.inserted.forM c.insertRow : Exec Unit) := by
    refine Exec.follows_bind
      (Exec.follows_forM fun id _ => follows_overwriteRow hquiet id) fun _ => ?_
    refine Exec.follows_bind (Exec.follows_forM fun id _ => follows_updateRow hquiet id) fun _ => ?_
    exact Exec.follows_forM fun id hid => follows_insertRow hquiet hid
  have hinserted : Tells c [] later (c.told (plan.inserted.map fun id => (.index, id)))
      (plan.inserted.forM (c.announce .index)) := tells_forM_announce henabled .index
    fun id hid => hlater (.index, id) (TablePlan.mem_saved.mpr (Or.inl ⟨rfl, hid⟩))
  have hreplacing : Tells c [] later (c.told (plan.replacing.map fun id => (.update, id)))
      (plan.replacing.forM (c.announce .update)) := tells_forM_announce henabled .update
    fun id hid => hlater (.update, id) (TablePlan.mem_saved.mpr (Or.inr (Or.inl ⟨rfl, hid⟩)))
  have hchanged : Tells c [] later (c.told (plan.changed.map fun id => (.update, id)))
      (plan.changed.forM (c.announce .update)) := tells_forM_announce henabled .update
    fun id hid => hlater (.update, id) (TablePlan.mem_saved.mpr (Or.inr (Or.inr ⟨rfl, hid⟩)))
  have hupdated := tells_bind [] hreplacing hchanged nofun nofun nofun fun _ h => h
  have hannounce := tells_bind [] hinserted hupdated nofun nofun nofun fun _ h => h
  have hsave := tells_bind plan.inserted (tells_of_quiet hstore later) hannounce
    (fun _ h => h) nofun nofun fun _ h => h
  intro s hs hstack
  have hsteps : c.save plan = ((do
      plan.replacing.forM c.overwriteRow
      plan.changed.forM c.updateRow
      plan.inserted.forM c.insertRow : Exec Unit) >>= fun _ =>
        plan.inserted.forM (c.announce .index) >>= fun _ =>
          plan.replacing.forM (c.announce .update) >>= fun _ =>
            plan.changed.forM (c.announce .update)) := by
    unfold save
    simp only [bind_assoc]
  rw [hsteps]
  refine (hsave s hs hstack).congr fun u _ => ?_
  rw [TablePlan.saved, told_append, told_append, List.nil_append, List.append_assoc]

theorem tells_forM_save {plans : List TablePlan}
    (hplans : plans.Pairwise fun p q => ∀ change ∈ p.saved, change.2 ∉ q.inserted) :
    Tells c (plans.flatMap (·.inserted)) [] (c.told (plans.flatMap TablePlan.saved))
      (plans.forM c.save) := by
  induction plans with
  | nil => exact fun s _ _ => Told.none fun _ _ => rfl
  | cons plan plans ih =>
      obtain ⟨hplan, hrest⟩ := List.pairwise_cons.mp hplans
      have hfirst : Tells c plan.inserted (plans.flatMap (·.inserted)) (c.told plan.saved)
          (c.save plan) := tells_save henabled plan fun change hchange hid => by
          obtain ⟨other, hother, hid⟩ := List.mem_flatMap.mp hid
          exact hplan other hother change hchange hid
      intro s hs hstack
      rw [Exec.forM_cons]
      have hboth := tells_bind ((plan :: plans).flatMap (·.inserted)) hfirst (ih hrest)
        (fun id hid => List.mem_flatMap.mpr ⟨plan, List.mem_cons_self, hid⟩)
        (fun id hid => by
          obtain ⟨other, hother, hid⟩ := List.mem_flatMap.mp hid
          exact List.mem_flatMap.mpr ⟨other, List.mem_cons_of_mem plan hother, hid⟩)
        (fun _ h => h) nofun
      exact (hboth s hs hstack).congr fun u _ => told_flatMap _ plan plans u

theorem tells_remove (plan : TablePlan) :
    Tells c [] [] (c.told plan.gone) (c.remove plan) := by
  have hquiet := permits_quiet c []
  have hrows : Exec.Follows (Quiet c []) (plan.removed.forM c.removeRow) :=
    Exec.follows_forM fun id _ => follows_removeRow hquiet id
  have hannounce : Tells c [] [] (c.told plan.gone) (plan.removed.forM (c.announce .delete)) :=
    tells_forM_announce henabled .delete fun id _ => List.not_mem_nil
  exact tells_bind [] (tells_of_quiet hrows []) hannounce nofun nofun nofun nofun

theorem tells_forM_remove (plans : List TablePlan) :
    Tells c [] [] (c.told (plans.flatMap TablePlan.gone)) (plans.forM c.remove) := by
  induction plans with
  | nil => exact fun s _ _ => Told.none fun _ _ => rfl
  | cons plan plans ih =>
      intro s hs hstack
      rw [Exec.forM_cons]
      have hboth := tells_bind [] (tells_remove henabled plan) ih nofun nofun nofun nofun
      exact (hboth s hs hstack).congr fun u _ => told_flatMap _ plan plans u

/-- The rows of all tables are written, and the listeners hear of what was reported. -/
theorem tells_plans (hs : s.Sound) (hnames : c.catalog.baseNames.Nodup) (hstack : s.stack ≠ []) :
    Told c ((c.plans s).flatMap (·.inserted)) [] (fun u => (c.reported s).flatMap (c.heard u)) s
      (((c.plans s).forM c.save >>= fun _ => (c.plans s).forM c.remove : Exec Unit) s).2
      (((c.plans s).forM c.save >>= fun _ => (c.plans s).forM c.remove : Exec Unit) s).1 := by
  have hboth := tells_bind ((c.plans s).flatMap (·.inserted))
    (tells_forM_save henabled (pairwise_plans hs hnames)) (tells_forM_remove henabled (c.plans s))
    (fun _ h => h) nofun nofun nofun s hs hstack
  refine hboth.congr fun u hu => ?_
  rw [← told_append, told, reported]
  congr 1
  refine List.filter_congr fun change hchange => ?_
  obtain ⟨action, id⟩ := change
  -- what is new or gone is told of whatever has happened to the object
  by_cases hupdate : action = .update
  · subst hupdate
    refine (hboth.proceeds.trans (hu.mono nofun)).isDue_eq hs .update fun hid => ?_
    obtain ⟨other, hother, hid⟩ := List.mem_flatMap.mp hid
    rcases List.mem_append.mp hchange with hsaved | hgone
    · obtain ⟨plan, hplan, hsaved⟩ := List.mem_flatMap.mp hsaved
      exact notMem_inserted_of_update hs hplan hsaved hother hid
    · obtain ⟨plan, _, hgone⟩ := List.mem_flatMap.mp hgone
      obtain ⟨_, _, heq⟩ := List.mem_map.mp hgone
      cases heq
  · have hother : (action != .update) = true := by simpa using hupdate
    simp only [isDue, hother, Bool.true_or]

end Tells

/-- A flush that succeeds.  Each change is sent once for each listener, and queued once if it
has to wait. -/
structure Reports (c : Surroundings) (s t : Session) : Prop where
  sent : ∃ ws : List PendingWrite, t.sent = s.sent ++ ws.map PendingWrite.call ∧
    (c.reported s).flatMap (c.heard t) = ws.map some
  queue : ∃ ws : List PendingWrite, t.queue = s.queue ++ ws ∧
    s.changes.flatMap (c.deferred t) = ws.map some
  opens : Opens s t
  sound : t.Sound

/-- The changes of a flush are the same when its rows were written. -/
theorem changes_eq_of_proceeds {c : Surroundings} {ids : List Nat} {s t : Session}
    (h : Proceeds c ids s t) (hs : s.Sound) (hids : ∀ id ∈ ids, id ∈ s.fresh) :
    t.changes = s.changes := by
  have hcarries := (h.objects hs).imp fun _ _ hop => hop.carries
  rw [changes, changes, h.fresh, h.marked, modified_map_id_of_carries hcarries hs h.marked hids]

theorem heard_of_settles {c : Surroundings} {s t : Session} (h : Settles s t)
    (change : Action × Nat) : c.heard t change = c.heard s change := by
  rw [heard, heard, h.changeOf_eq,
    listeners_eq h.objects (fun _ _ hop => ⟨hop.1, hop.2.1⟩) change.2]

theorem deferred_of_settles {c : Surroundings} {s t : Session} (h : Settles s t)
    (change : Action × Nat) : c.deferred t change = c.deferred s change := by
  have hdeferrals : c.deferrals t change.2 = c.deferrals s change.2 := by
    unfold deferrals
    rcases object?_cases h.objects (fun o p hop => hop.1) change.2 with
      ⟨ho, hp⟩ | ⟨o, p, ho, hp, hop⟩
    · rw [ho, hp]
    · rw [ho, hp]
      dsimp only
      rw [hop.2.1]
  rw [deferred, deferred, h.changeOf_eq, hdeferrals]

/-- The work of a flush that comes to its end. -/
theorem reports_of_flushWork {c : Surroundings} {s t : Session} (henabled : c.enabled = true)
    (hnames : c.catalog.baseNames.Nodup) (h : c.flushWork s = (.ok (), t)) (hs : s.Sound)
    (hstack : s.stack ≠ []) : c.Reports s t := by
  have htold := tells_plans henabled hs hnames hstack
  have hsteps : c.flushWork s = ((((c.plans s).forM c.save >>= fun _ =>
      (c.plans s).forM c.remove) >>= fun _ => c.collect >>= fun _ =>
        modify c.conclude : Exec Unit) s) := by
    unfold flushWork
    rw [Exec.bind_apply, Exec.get_apply]
    simp only [bind_assoc]
    rfl
  rw [hsteps] at h
  obtain ⟨a, u, hplans, h⟩ := Exec.bind_eq_ok h
  obtain ⟨b, v, hcollect, h⟩ := Exec.bind_eq_ok h
  obtain rfl : c.conclude v = t := congrArg Prod.snd h
  rw [hplans] at htold
  obtain ⟨hproceeds, hsent⟩ := htold
  obtain ⟨sent, hsent, hheard⟩ := hsent rfl
  have husound := hproceeds.sound hs
  have hustack := hproceeds.opens.stack_ne_nil hstack
  obtain ⟨hreads, ws, hqueue, _, hws⟩ := c.collect_queued hcollect husound hustack
  have hreading : Proceeds c [] u { v with queue := u.queue } :=
    Proceeds.of_reads (hreads.trans (reads_queue c v u.queue)) rfl []
  have hsettled := settles_conclude c v
  have hids : ∀ id ∈ (c.plans s).flatMap (·.inserted), id ∈ s.fresh := by
    intro id hid
    obtain ⟨plan, hplan, hid⟩ := List.mem_flatMap.mp hid
    obtain ⟨base, _, rfl⟩ := List.mem_map.mp hplan
    exact c.inserted_subset_fresh s base id hid
  have hchanges := changes_eq_of_proceeds hproceeds hs hids
  have hopens := (hproceeds.opens.trans hreads.stays.opens).outline_eq hstack
  have hcreated := (hproceeds.opens.trans hreads.stays.opens).created_eq hstack
  have hsound : SoundFor [] v :=
    (hreads.stays.sound husound).mono fun id hid => absurd hid List.not_mem_nil
  refine { sent := ⟨sent, ?sent, ?heard⟩, queue := ⟨ws, ?queue, ?deferred⟩,
           opens := Opens.of_eq (hsettled.outline.trans hopens) (hsettled.created.trans hcreated)
             (hsettled.savepoints.trans (hproceeds.opens.trans hreads.stays.opens).savepoints),
           sound := hsettled.sound hsound }
  case sent => rw [hsettled.sent, hreads.stays.sent, hsent]
  case heard =>
    rw [← hheard _ hreading]
    refine List.flatMap_congr fun change _ => ?_
    rw [heard_of_settles hsettled]
    rfl
  case queue => rw [hsettled.queue, hqueue, hproceeds.queue]
  case deferred =>
    have hmade := made_of_collect hcollect husound hustack (Reads.refl c v)
    rw [hws rfl v (Reads.refl c v), written_eq, ← flatMap_deferred hmade, hchanges]
    exact List.flatMap_congr fun change _ => deferred_of_settles hsettled change

/-- Without anything to flush there is nothing to report. -/
theorem reports_of_isClean (c : Surroundings) {s : Session} (hs : s.Sound)
    (h : s.isClean = true) : c.Reports s s := by
  obtain ⟨hfresh, hmarked, hdirty⟩ := lists_of_isClean h
  have hplan (base : String) : c.planFor s base = emptyPlan := by
    simp [planFor, hfresh, hmarked, hdirty, objectsOf, emptyPlan, Obj.byKey]
  have hreported : c.reported s = [] := by
    have hnone (f : TablePlan → List (Action × Nat)) (hf : f emptyPlan = []) :
        (c.plans s).flatMap f = [] := by
      refine List.flatMap_eq_nil_iff.mpr fun plan hmem => ?_
      obtain ⟨base, _, rfl⟩ := List.mem_map.mp hmem
      rw [hplan, hf]
    rw [reported, hnone TablePlan.saved rfl, hnone TablePlan.gone rfl]
    rfl
  have hchanges : s.changes = [] := by simp [changes, hfresh, hmarked, hdirty]
  refine ⟨⟨[], (List.append_nil _).symm, ?_⟩, ⟨[], (List.append_nil _).symm, ?_⟩, Opens.refl s, hs⟩
  · rw [hreported]
    rfl
  · rw [hchanges]
    rfl

theorem reported_begin (c : Surroundings) (s : Session) :
    c.reported s.begin = c.reported s ∧ s.begin.changes = s.changes := by
  have hbegin : s.begin.objects = s.objects ∧ s.begin.fresh = s.fresh ∧
      s.begin.marked = s.marked := ⟨s.begin_objects, s.begin_fresh, s.begin_marked⟩
  generalize s.begin = u at hbegin
  obtain ⟨hobjects, hfresh, hmarked⟩ := hbegin
  obtain ⟨objects, names, fresh, marked, stack, savepoints, created, rows, queue, sent⟩ := u
  subst hobjects hfresh hmarked
  exact ⟨rfl, rfl⟩

/-- A flush that succeeds reports its changes. -/
theorem reports_of_flush {c : Surroundings} {s t : Session} (henabled : c.enabled = true)
    (hnames : c.catalog.baseNames.Nodup) (h : c.flush s = (.ok (), t)) (hs : s.Sound) :
    c.Reports s t := by
  rcases flush_cases h with ⟨hclean, rfl⟩ | hwork
  · exact reports_of_isClean c hs hclean
  · have hbegin := stays_begin s
    obtain ⟨hsent, hqueue, hopens, hsound⟩ :=
      reports_of_flushWork henabled hnames hwork (hbegin.sound hs) s.begin_stack_ne_nil
    obtain ⟨hreported, hchanges⟩ := reported_begin c s
    rw [s.begin_sent, hreported] at hsent
    rw [s.begin_queue, hchanges] at hqueue
    exact ⟨hsent, hqueue, hbegin.opens.trans hopens, hsound⟩

end Surroundings

end Typeahead
