import Typeahead.Proofs.Listening.Changes
import Typeahead.Proofs.Mirror.Guarantees

/-!
# One write for a change

An object is written through the nearest configuration of its class, by every listener that
hears of it while flushing, and once more after the commit if that configuration writes on
commit.  So a change is written once, and when its configuration asks for it, as long as no
other listener is left on a class of the ancestry.
-/

namespace Typeahead

namespace Catalog

/-- Objects of a class are heard of by the listener that its configuration asks for, and by no
other one. -/
def AnswersOnce (c : Catalog) (name : String) : Prop :=
  ∀ x ∈ c.searchable? name,
    c.listenerCount name = if x.index.writesOnCommit then 0 else 1

instance (c : Catalog) (name : String) : Decidable (c.AnswersOnce name) :=
  match h : c.searchable? name with
  | none => .isTrue fun x hx => by rw [h] at hx; cases hx
  | some x => decidable_of_iff (c.listenerCount name = if x.index.writesOnCommit then 0 else 1)
      ⟨fun hx y hy => by rw [h] at hy; obtain rfl := Option.some.inj hy; exact hx,
        fun hc => hc x h⟩

theorem answersOnce_iff {c : Catalog} {name : String} {x : Searchable}
    (hx : c.searchable? name = some x) :
    c.AnswersOnce name ↔ c.listenerCount name = if x.index.writesOnCommit then 0 else 1 := by
  refine ⟨fun h => h x hx, fun h y hy => ?_⟩
  obtain rfl := Option.some.inj (hx.symm.trans hy)
  exact h

/-- A configuration that writes while flushing leaves a listener. -/
theorem listenerCount_pos {c : Catalog} {name : String} {x : Searchable}
    (hx : c.searchable? name = some x) (hflush : x.index.writesOnCommit = false) :
    0 < c.listenerCount name := by
  obtain ⟨e, he, hlast⟩ := List.exists_of_findSome?_eq_some hx
  refine List.length_pos_of_mem (List.mem_filter.mpr ⟨he, ?_⟩)
  refine List.any_eq_true.mpr ⟨x, List.mem_of_getLast? hlast, ?_⟩
  rw [hflush]
  rfl

end Catalog

namespace Surroundings

open Session

variable {c : Surroundings} {s t : Session}

/-- The writes of several changes that are asked for while flushing, one for each change. -/
def prompt (c : Surroundings) (t : Session) (changes : List (Action × Nat)) : List PendingWrite :=
  (changes.filterMap fun change => c.changeOf t change.1 change.2).filter
    fun w => !w.searchable.index.writesOnCommit

/-- The classes of the objects that are changed answer once. -/
def AnswersAll (c : Surroundings) (t : Session) (changes : List (Action × Nat)) : Prop :=
  ∀ change ∈ changes, ∀ o, t.object? change.2 = some o → c.catalog.AnswersOnce o.entity

theorem prompt_cons (change : Action × Nat) (changes : List (Action × Nat)) :
    c.prompt t (change :: changes) = c.prompt t [change] ++ c.prompt t changes := by
  unfold prompt
  rw [← List.filter_append, ← List.filterMap_append]
  rfl

theorem searchable_of_changeOf {action : Action} {id : Nat} {o : Obj} {x : Searchable}
    {w : PendingWrite} (ho : t.object? id = some o) (hx : c.catalog.searchable? o.entity = some x)
    (hw : c.changeOf t action id = some w) : w.searchable = x := by
  simp only [changeOf, ho, hx, Option.bind_eq_bind, Option.bind_some] at hw
  obtain ⟨parts, _, heq⟩ := Option.bind_eq_some_iff.mp hw
  exact (congrArg PendingWrite.searchable (Option.some.inj heq)).symm

/-- One change of an object with a configuration, which was sent by each listener. -/
theorem sent_spec {change : Action × Nat} {ws : List PendingWrite} {o : Obj} {x : Searchable}
    (ho : t.object? change.2 = some o) (hx : c.catalog.searchable? o.entity = some x)
    (h : List.replicate (c.catalog.listenerCount o.entity) (c.changeOf t change.1 change.2) =
      ws.map some) :
    (c.prompt t [change]).length ≤ ws.length ∧
      (ws = c.prompt t [change] ↔ c.catalog.AnswersOnce o.entity) := by
  rw [Catalog.answersOnce_iff hx]
  cases hcommit : x.index.writesOnCommit with
  | true =>
      have hprompt : c.prompt t [change] = [] := by
        cases hw : c.changeOf t change.1 change.2 with
        | none => simp [prompt, hw]
        | some w => simp [prompt, hw, searchable_of_changeOf ho hx hw, hcommit]
      have hlength := congrArg List.length h
      rw [List.length_replicate, List.length_map] at hlength
      rw [hprompt, hlength, if_pos rfl, List.length_eq_zero_iff]
      exact ⟨Nat.zero_le _, Iff.rfl⟩
  | false =>
      have hpos := Catalog.listenerCount_pos hx hcommit
      obtain ⟨n, hn⟩ := Nat.exists_eq_succ_of_ne_zero hpos.ne'
      rw [hn] at h ⊢
      -- there is a listener, so the change has a write
      obtain ⟨w, rest, rfl, hw, hrest⟩ := List.map_eq_cons_iff.mp h.symm
      have hprompt : c.prompt t [change] = [w] := by
        simp [prompt, hw.symm, searchable_of_changeOf ho hx hw.symm, hcommit]
      have hlength := congrArg List.length hrest
      rw [List.length_map, List.length_replicate] at hlength
      rw [hprompt, if_neg Bool.false_ne_true, List.cons.injEq, ← List.length_eq_zero_iff, hlength]
      exact ⟨by simp, by simp⟩

/-- One change, of which the listeners sent `ws`.  It was never sent less often than asked for. -/
theorem heard_spec {change : Action × Nat} {ws : List PendingWrite}
    (h : c.heard t change = ws.map some) :
    (c.prompt t [change]).length ≤ ws.length ∧
      (ws = c.prompt t [change] ↔ c.AnswersAll t [change]) := by
  have hall : c.AnswersAll t [change] ↔
      ∀ o, t.object? change.2 = some o → c.catalog.AnswersOnce o.entity := by
    simp only [AnswersAll, List.mem_singleton, forall_eq]
  rw [hall]
  cases ho : t.object? change.2 with
  | none =>
      have hws : ws = [] := by simpa [heard, listeners, ho] using h.symm
      have hprompt : c.prompt t [change] = [] := by simp [prompt, changeOf, ho]
      simp [hws, hprompt]
  | some o =>
      have hlisteners : c.listeners t change.2 = c.catalog.listenerCount o.entity := by
        rw [listeners, ho]
      rw [heard, hlisteners] at h
      have hobject : (∀ p, some o = some p → c.catalog.AnswersOnce p.entity) ↔
          c.catalog.AnswersOnce o.entity :=
        ⟨fun hp => hp o rfl, fun hp p hop => Option.some.inj hop ▸ hp⟩
      rw [hobject]
      cases hx : c.catalog.searchable? o.entity with
      | none =>
          have hprompt : c.prompt t [change] = [] := by simp [prompt, changeOf, ho, hx]
          rw [Catalog.listenerCount_eq_zero_of_searchable? hx] at h
          have hws : ws = [] := by simpa using h.symm
          have hanswers : c.catalog.AnswersOnce o.entity := fun y hy => by
            rw [hx] at hy
            cases hy
          simp [hws, hprompt, hanswers]
      | some x => exact sent_spec ho hx h

/-- Several changes.  They are sent once each, if at all, exactly when their classes answer
once. -/
theorem flatMap_heard_spec {changes : List (Action × Nat)} {ws : List PendingWrite}
    (h : changes.flatMap (c.heard t) = ws.map some) :
    (c.prompt t changes).length ≤ ws.length ∧
      (ws = c.prompt t changes ↔ c.AnswersAll t changes) := by
  induction changes generalizing ws with
  | nil =>
      obtain rfl : ws = [] := by simpa using h.symm
      exact ⟨Nat.le_refl 0, fun _ _ hchange => absurd hchange List.not_mem_nil, fun _ => rfl⟩
  | cons change changes ih =>
      rw [List.flatMap_cons] at h
      obtain ⟨vs, us, rfl, hvs, hus⟩ := List.map_eq_append_iff.mp h.symm
      obtain ⟨hfirst, hone⟩ := heard_spec hvs.symm
      obtain ⟨hrest, hothers⟩ := ih hus.symm
      have hsplit : c.AnswersAll t (change :: changes) ↔
          c.AnswersAll t [change] ∧ c.AnswersAll t changes := by
        simp only [AnswersAll, List.forall_mem_cons, List.mem_singleton, forall_eq]
      rw [prompt_cons, hsplit, ← hone, ← hothers, List.length_append, List.length_append]
      refine ⟨Nat.add_le_add hfirst hrest, fun heq => ?_, fun heq => by rw [heq.1, heq.2]⟩
      have hlengths := congrArg List.length heq
      rw [List.length_append, List.length_append] at hlengths
      exact List.append_inj heq (by omega)

/-- After any run over declared classes, with writes switched on: a flush that succeeds sends a
change once for each listener that hears of it, and queues it once if its configuration writes
on commit; unless a row is taken over, listeners hear of every change once.  As long as nothing
is undone, the commit sends what was queued, each write once.  So every change is written once,
when its configuration asks for it, exactly if the classes of the changed objects answer
once. -/
theorem flush_writes_once_iff (hcatalog : c.catalog.WellDeclared) (henabled : c.enabled = true)
    (program : List Instruction) {v : Session}
    (hflush : c.flush (Running.initial.run c.catalog c.backend program).session = (.ok (), t))
    {between : List Command} (hbetween : ∀ command ∈ between, command.isLasting = true)
    (hcommit : c.commit (c.performAll between t) = (.ok (), v)) :
    let s := (Running.initial.run c.catalog c.backend program).session
    ∃ sent queued : List PendingWrite,
      (t.sent = s.sent ++ sent.map PendingWrite.call ∧
        (c.reported s).flatMap (c.heard t) = sent.map some) ∧
      (t.queue = s.queue ++ queued ∧ s.changes.flatMap (c.deferred t) = queued.map some) ∧
      (¬ c.TakesOver s → (c.reported s).Perm s.changes) ∧
      (∃ w, c.flush (c.performAll between t).begin = (.ok (), w) ∧ t.queue <+: w.queue ∧
        v.sent = w.sent ++ w.queue.map PendingWrite.call ∧ v.queue = []) ∧
      (sent = c.prompt t (c.reported s) ↔ c.AnswersAll t (c.reported s)) := by
  intro s
  have hseated : s.Seated c.catalog :=
    Running.seated_run hcatalog c.backend program (seated_empty c.catalog)
  have hreports := reports_of_flush henabled hcatalog.nodup_baseNames hflush hseated.sound
  obtain ⟨sent, hsent, hheard⟩ := hreports.sent
  obtain ⟨queued, hqueued, hdeferred⟩ := hreports.queue
  have hflushedSeated : t.Seated c.catalog := by
    have habides := follows_flush (tolerates_abides c) s
    rw [hflush] at habides
    exact hseated.of_abides habides
  have hsound := (seated_performAll hcatalog between hflushedSeated).sound
  obtain ⟨w, hw, hvsent, hvqueue⟩ := sends_of_commit henabled hsound hcommit
  refine ⟨sent, queued, ⟨hsent, hheard⟩, ⟨hqueued, hdeferred⟩, reported_perm hcatalog hseated,
    ⟨w, hw, ?_, hvsent, hvqueue⟩, (flatMap_heard_spec hheard).2⟩
  have hbegin := (tolerates_retains c).begins (c.performAll between t)
  have hflushed := follows_flush (tolerates_retains c) (c.performAll between t).begin
  rw [hw] at hflushed
  exact trans_of Retains (c.retains_performAll hbetween t) (trans_of Retains hbegin hflushed)

end Surroundings

namespace Listening

open Journal

/-- A class that extends the places. -/
def townModel : Model := ⟨"Town", some placeTable⟩

/-- Configurations of places, one after the other, that write on commit or not. -/
def configured (modes : List Bool) : List Searchable := modes.map fun commit =>
  { placeSearchable with
    index := { placeIndex with
      options := placeIndex.options.set "commit_callbacks" (.bool commit) } }

/-- Places, and towns that extend them. -/
def towns (places towns : List Bool) : Catalog :=
  [⟨townModel, some "Place", configured towns⟩, ⟨placeModel, none, configured places⟩]

theorem wellDeclared_towns (places modes : List Bool) : (towns places modes).WellDeclared := by
  refine ⟨by simp [townModel, placeModel], fun p hp => ?_, by simp, nofun, trivial⟩
  obtain rfl : "Place" = p := Option.some.inj hp
  simp [Catalog.lineage, placeModel]

/-- Places and towns, with writes switched on. -/
def surveying (places modes : List Bool) : Surroundings :=
  ⟨towns places modes, accepting, true⟩

/-- A town is to be stored. -/
def founding : List Instruction :=
  [.session (.add "bern" "Town" [("name", .text "Bern")])]

/-- The session in which a town is to be stored. -/
def founded (places modes : List Bool) : Session :=
  (Running.initial.run (towns places modes) accepting founding).session

/-- The town is stored. -/
def stored (places modes : List Bool) : Session :=
  ((surveying places modes).flush (founded places modes)).2

/-- Another town is to be stored after that. -/
def widening : List Command := [.add "basel" "Town" [("name", .text "Basel")]]

theorem isOk_eq {x : Exec Unit} {s : Session} (h : (x s).1.isOk = true) :
    x s = (.ok (), (x s).2) := by
  rcases hx : x s with ⟨r, t⟩
  rw [hx] at h
  cases r with
  | ok a => rfl
  | error e => cases h

theorem stored_facts : ((surveying [true] [false]).flush (founded [true] [false])).1.isOk ∧
    ((surveying [true] [false]).commit
      ((surveying [true] [false]).performAll widening (stored [true] [false]))).1.isOk ∧
    (founded [true] [false]).changes = [(.index, 0)] ∧
    (stored [true] [false]).sent.length = 1 ∧
    ∀ o ∈ (stored [true] [false]).objects, (towns [true] [false]).AnswersOnce o.entity := by
  decide +kernel

theorem flush_founded : (surveying [true] [false]).flush (Running.initial.run
      (surveying [true] [false]).catalog (surveying [true] [false]).backend founding).session =
    (.ok (), stored [true] [false]) := isOk_eq stored_facts.1

/-- Only the town has a listener, and so it is written once while flushing. -/
theorem flush_writes_once_iff_founded :
    (surveying [true] [false]).catalog.WellDeclared ∧
      ((surveying [true] [false]).flush (founded [true] [false])).1.isOk ∧
      (∀ command ∈ widening, command.isLasting = true) ∧
      ((surveying [true] [false]).commit
        ((surveying [true] [false]).performAll widening (stored [true] [false]))).1.isOk ∧
      (founded [true] [false]).changes = [(.index, 0)] ∧
      (stored [true] [false]).sent.length = 1 ∧
      (stored [true] [false]).sent = (founded [true] [false]).sent ++
        ((surveying [true] [false]).prompt (stored [true] [false])
          ((surveying [true] [false]).reported (founded [true] [false]))).map
            PendingWrite.call := by
  obtain ⟨hflush, hcommit, hchanges, hlength, hanswers⟩ := stored_facts
  have hwell := wellDeclared_towns [true] [false]
  have hlasting : ∀ command ∈ widening, command.isLasting = true := by decide
  refine ⟨hwell, hflush, hlasting, hcommit, hchanges, hlength, ?_⟩
  obtain ⟨sent, _, ⟨hsent, _⟩, _, _, _, honce⟩ :=
    Surroundings.flush_writes_once_iff (c := surveying [true] [false]) hwell rfl founding
      flush_founded hlasting (isOk_eq hcommit)
  rw [hsent, honce.mpr fun change _ o ho => hanswers o (Session.mem_of_object?_eq_some ho).1]
  rfl

/-- Both classes write while flushing, so a town has two listeners: that of its own class and
that of the places.  The write of one new town is sent twice by the flush that stores it. -/
theorem exists_written_twice :
    ((towns [false] [false]).searchable? "Town").any (fun x => !x.index.writesOnCommit) ∧
      ((surveying [false] [false]).flush (founded [false] [false])).1.isOk ∧
      (founded [false] [false]).changes = [(.index, 0)] ∧
      (founded [false] [false]).sent = [] ∧
      ∃ w : PendingWrite, (stored [false] [false]).sent = [w.call, w.call] := by
  have hfacts : ((towns [false] [false]).searchable? "Town").any
        (fun x => !x.index.writesOnCommit) ∧
      ((surveying [false] [false]).flush (founded [false] [false])).1.isOk ∧
      (founded [false] [false]).changes = [(.index, 0)] ∧
      (founded [false] [false]).sent.length = 0 ∧
      (surveying [false] [false]).reported (founded [false] [false]) = [(.index, 0)] ∧
      (surveying [false] [false]).listeners (stored [false] [false]) 0 = 2 := by
    decide +kernel
  obtain ⟨hprompt, hflush, hchanges, hlength, hreported, hlisteners⟩ := hfacts
  have hempty := List.length_eq_zero_iff.mp hlength
  have hwell := wellDeclared_towns [false] [false]
  have hseated : (founded [false] [false]).Seated (towns [false] [false]) :=
    Running.seated_run hwell accepting founding (Session.seated_empty _)
  have hreports : (surveying [false] [false]).Reports (founded [false] [false])
      (stored [false] [false]) :=
    Surroundings.reports_of_flush rfl hwell.nodup_baseNames (isOk_eq hflush) hseated.sound
  obtain ⟨sent, hsent, hheard⟩ := hreports.sent
  rw [hreported, List.flatMap_singleton, Surroundings.heard] at hheard
  dsimp only at hheard
  rw [hlisteners] at hheard
  obtain ⟨w, rest, rfl, hw, hrest⟩ := List.map_eq_cons_iff.mp hheard.symm
  obtain ⟨w', rest, rfl, hw', hnone⟩ := List.map_eq_cons_iff.mp hrest
  obtain rfl : rest = [] := List.map_eq_nil_iff.mp hnone
  obtain rfl : w' = w := Option.some.inj (hw'.trans hw.symm)
  refine ⟨hprompt, hflush, hchanges, hempty, w', ?_⟩
  rw [hempty] at hsent
  exact hsent

end Listening

end Typeahead
