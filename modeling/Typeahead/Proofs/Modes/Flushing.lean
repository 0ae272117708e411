import Typeahead.Proofs.Modes.Calls

/-!
# A flush in both modes

A flush that succeeds in both modes, in sessions that differ in their writes only, writes the same
for each id: `Session.Alike`.  A commit flushes and sends what waits, so it makes no difference to
what is written.
-/

namespace Typeahead

namespace Session

/-- What a flush writes in the two modes, from one session to another: for each id the same calls,
and an update exactly if a stored object of that id has changes. -/
structure Alike (s w : Session) (more more' : List Call) : Prop where
  posted : w.posted = s.posted ++ more
  same : ∀ k, more.filter (Call.isFor k) = more'.filter (Call.isFor k)
  updates : ∀ k, Call.Updates more k ↔
    ∃ o, s.IsLive o ∧ o.isModified = true ∧ o.label.same k = true

/-- A flush with nothing to do writes nothing. -/
theorem alike_of_isClean {s : Session} (h : s.isClean = true) : Alike s s [] [] := by
  refine ⟨(List.append_nil _).symm, fun _ => rfl, fun k => ⟨?_, ?_⟩⟩
  · rintro ⟨call, hcall, _⟩
    exact absurd hcall List.not_mem_nil
  · rintro ⟨o, ho, hmodified, _⟩
    have hcalm := ho.modified_eq_false h
    rw [Obj.isModified, hcalm] at hmodified
    cases hmodified

/-- What is there before a flush does not depend on whether a transaction is open. -/
theorem Alike.of_begin {s w : Session} {more more' : List Call} (h : Alike s.begin w more more') :
    Alike s w more more' := by
  obtain ⟨hposted, hsame, hupdates⟩ := h
  rw [posted_begin] at hposted
  simp only [IsLive, begin_objects, begin_marked] at hupdates
  exact ⟨hposted, hsame, hupdates⟩

/-- What is sent was posted before. -/
theorem Alike.of_posted {s v w : Session} {more more' : List Call} (h : Alike s v more more')
    (hw : w.posted = v.posted) : Alike s w more more' :=
  ⟨hw.trans h.posted, h.same, h.updates⟩

end Session

namespace Surroundings

open Session

variable {c : Surroundings} {name : String} {t : Table} {s u w : Session}

namespace Models

/-- With writes on commit, the documents of the class go along with its rows. -/
theorem replicates (hc : c.Models name t) :
    ∃ x, (c.withCallbacks true).Replicates name t x := by
  have hne : c.catalog.configured name ≠ [] :=
    List.ne_nil_of_length_pos (by rw [hc.single]; exact Nat.zero_lt_one)
  obtain ⟨x, hx⟩ := Option.isSome_iff_exists.mp (c.catalog.isSome_searchable? name hne)
  have htable := (c.catalog.table?_withCallbacks true name).trans hc.table
  refine ⟨x.withCallbacks true, hc.enabled, c.catalog.onCommit_withCallbacks, htable, ?_, hc.keyed,
    ?_⟩
  · have hknown : c.catalog.lineage name ≠ [] := fun hnil => by
      rw [Catalog.configured, hnil] at hne
      exact hne rfl
    have hmem := hc.declared.baseName_mem hknown
    rw [withCallbacks, Catalog.baseNames_withCallbacks, Catalog.baseName_withCallbacks]
    exact List.count_eq_one_of_mem hc.declared.nodup_baseNames hmem
  · rw [withCallbacks, Catalog.searchable?_withCallbacks, hx]
    rfl

theorem nodup_baseNames (hc : c.Models name t) (onCommit : Bool) :
    (c.withCallbacks onCommit).catalog.baseNames.Nodup := by
  rw [withCallbacks, Catalog.baseNames_withCallbacks]
  exact hc.declared.nodup_baseNames

/-- While flushing, one listener hears of the objects of the class. -/
theorem heard_eq (hc : c.Models name t) (hs : ∀ o ∈ s.objects, o.entity = name)
    (change : Action × Nat) :
    (c.withCallbacks false).heard s change =
        [(c.withCallbacks false).changeOf s change.1 change.2] ∨
      (c.withCallbacks false).heard s change = [] ∧
        (c.withCallbacks false).changeOf s change.1 change.2 = none := by
  unfold heard listeners
  cases ho : s.object? change.2 with
  | none => exact Or.inr ⟨rfl, by rw [changeOf, ho]; rfl⟩
  | some o =>
      have hone : (c.withCallbacks false).catalog.listenerCount o.entity = 1 := by
        rw [hs o (mem_of_object?_eq_some ho).1, withCallbacks,
          Catalog.listenerCount_withCallbacks, hc.single]
      dsimp only
      rw [hone]
      exact Or.inl rfl

end Models

/-- While flushing, nothing is queued. -/
theorem deferred_eq_nil (c : Surroundings) (s : Session) (change : Action × Nat) :
    (c.withCallbacks false).deferred s change = [] := by
  have hqueueing (entity : String) : (c.withCallbacks false).queueing? entity = none := by
    rw [queueing?, withCallbacks, Catalog.searchable?_withCallbacks]
    cases c.catalog.searchable? entity with
    | none => rfl
    | some x => rw [Option.map_some, Option.filter_some, Searchable.withCallbacks,
        Index.writesOnCommit_withCallbacks, if_neg Bool.false_ne_true]
  unfold deferred deferrals
  cases s.object? change.2 with
  | none => rfl
  | some o => simp [hqueueing]

/-- While flushing, what is heard of is sent at once, and nothing waits. -/
theorem writes_of_flushWork (hc : c.Models name t) (hs : s.Loaded) (hstack : s.stack ≠ [])
    (hw : ∀ o ∈ w.objects, o.entity = name) {queue : List PendingWrite} {sent sent' : List Call}
    (h : (c.withCallbacks false).flushWork (s.withWrites [] sent) =
      (.ok (), w.withWrites queue sent')) :
    queue = [] ∧ sent' = sent ++ (c.reported s).filterMap (c.callOf w) := by
  have hsound := (hs.of_eq (t := s.withWrites [] sent) rfl rfl).sound
  have hreports := reports_of_flushWork (c := c.withCallbacks false) hc.enabled
    (hc.nodup_baseNames false) h hsound hstack
  obtain ⟨ws, hsent, hws⟩ := hreports.sent
  obtain ⟨waiting, hqueue, hwaiting⟩ := hreports.queue
  constructor
  · rw [List.flatMap_eq_nil_iff.mpr fun change _ => c.deferred_eq_nil _ change] at hwaiting
    have hnone : waiting = [] := List.map_eq_nil_iff.mp hwaiting.symm
    exact hqueue.trans (by rw [hnone]; rfl)
  · have hchange (change : Action × Nat) :
        ((c.withCallbacks false).changeOf (w.withWrites queue sent') change.1 change.2).map
          PendingWrite.call = c.callOf w change :=
      congrFun (c.callOf_withCallbacks false w queue sent') change
    rw [reported_withCallbacks] at hws
    have hentity : ∀ o ∈ (w.withWrites queue sent').objects, o.entity = name := hw
    refine hsent.trans ?_
    rw [eq_filterMap_of_flatMap (hc.heard_eq hentity) hws, List.map_filterMap]
    simp only [hchange]
    rfl

/-- The work of a flush that succeeds in both modes and reuses no id. -/
theorem alike_of_flushWork (hc : c.Models name t) (hs : s.Regular name t) (hstack : s.stack ≠ [])
    {sent : List Call} (hon : (c.withCallbacks true).flushWork s = (.ok (), w))
    (hoff : (c.withCallbacks false).flushWork (s.withWrites [] sent) = (.ok (), u))
    (hfree : ¬ s.Reuses w) :
    ∃ more more', Alike s w more more' ∧ u = w.withWrites [] (sent ++ more') := by
  obtain ⟨x, hreplicates⟩ := hc.replicates
  obtain ⟨u', v, hqueues, rfl⟩ := flushWork_ok hreplicates hs hstack hon
  obtain ⟨queue', sent', rfl⟩ := abreast_flushWork true false hs.loaded hon hoff
  have hflushed := (c.withCallbacks true).flushed_of_collect hqueues.works hs.sound hstack
    hqueues.collect
  have hregular := hqueues.regular_conclude hreplicates hs hfree
  have hfilter := hqueues.filter_reported hreplicates hs hfree
  have hupdates := hqueues.updates_iff hreplicates hs
  generalize (c.withCallbacks true).conclude v = w at *
  have hcall : (c.withCallbacks true).callOf w = c.callOf w :=
    c.callOf_withCallbacks true w w.queue w.sent
  have hreported : (c.withCallbacks true).reported s = c.reported s :=
    c.reported_withCallbacks true s s.queue s.sent
  rw [hcall] at hupdates
  simp only [hcall, hreported] at hfilter
  obtain ⟨rfl, rfl⟩ := writes_of_flushWork hc hs.loaded hstack
    (fun o ho => (hregular.objects o ho).entity) hoff
  refine ⟨s.changes.filterMap (c.callOf w), (c.reported s).filterMap (c.callOf w),
    ⟨?_, hfilter, hupdates⟩, rfl⟩
  -- with writes on commit, the changes wait in the queue
  have hwrite (change : Action × Nat) :
      ((c.withCallbacks true).writeOf w change.1 change.2).map PendingWrite.call =
        c.callOf w change := by
    rw [writeOf_of_onCommit hreplicates.onCommit, ← hcall]
    rfl
  have hsent : w.sent = s.sent := hflushed.heard.none (Or.inr hreplicates.onCommit)
  rw [posted, posted, hflushed.queue, hsent, written_eq, List.map_append, List.map_filterMap,
    List.append_assoc]
  simp only [hwrite]

/-- A flush that succeeds in both modes and reuses no id. -/
theorem alike_of_flush (hc : c.Models name t) (hs : s.Regular name t) {sent : List Call}
    (hon : (c.withCallbacks true).flush s = (.ok (), w))
    (hoff : (c.withCallbacks false).flush (s.withWrites [] sent) = (.ok (), u))
    (hfree : ¬ s.Reuses w) :
    ∃ more more', Alike s w more more' ∧ u = w.withWrites [] (sent ++ more') := by
  have hsame : (s.withWrites [] sent).isClean = s.isClean := rfl
  cases hclean : s.isClean with
  | true =>
      rw [flush_of_isClean _ hclean] at hon
      rw [flush_of_isClean _ (hsame.trans hclean)] at hoff
      obtain rfl : s = w := congrArg Prod.snd hon
      obtain rfl : s.withWrites [] sent = u := congrArg Prod.snd hoff
      exact ⟨[], [], alike_of_isClean hclean, by rw [List.append_nil]⟩
  | false =>
      have hon := (flush_cases hon).resolve_left fun h => by
        rw [hclean] at h
        cases h.1
      have hoff := (flush_cases hoff).resolve_left fun h => by
        rw [hsame, hclean] at h
        cases h.1
      rw [begin_withWrites] at hoff
      have hfree : ¬ s.begin.Reuses w := by rwa [Reuses, begin_fresh, begin_marked]
      obtain ⟨more, more', hmore, hu⟩ :=
        alike_of_flushWork hc hs.begin s.begin_stack_ne_nil hon hoff hfree
      exact ⟨more, more', hmore.of_begin, hu⟩

/-- Without savepoints, a commit in either mode flushes and sends what waits. -/
theorem Models.commit_ok (hc : c.Models name t) (onCommit : Bool) (hs : s.Sound)
    (hstack : s.stack.length ≤ 1) (h : (c.withCallbacks onCommit).commit s = (.ok (), w)) :
    ∃ v, (c.withCallbacks onCommit).flush s.begin = (.ok (), v) ∧
      w = { v with
            stack := []
            queue := []
            sent := v.sent ++ v.queue.map PendingWrite.call } := by
  obtain ⟨v, hflush, hw⟩ :=
    commit_of_shallow (c := c.withCallbacks onCommit) hc.enabled hstack h
  have hreports := reports_of_flush (c := c.withCallbacks onCommit) hc.enabled
    (hc.nodup_baseNames onCommit) hflush ((stays_begin s).sound hs)
  refine ⟨v, hflush, hw ?_⟩
  rw [← length_outline, hreports.opens.outline_eq s.begin_stack_ne_nil, length_outline]
  exact (length_begin hstack).le

/-- A commit that succeeds in both modes and reuses no id. -/
theorem alike_of_commit (hc : c.Models name t) (hs : s.Regular name t) (hstack : s.stack.length ≤ 1)
    {sent : List Call} (hon : (c.withCallbacks true).commit s = (.ok (), w))
    (hoff : (c.withCallbacks false).commit (s.withWrites [] sent) = (.ok (), u))
    (hfree : ¬ s.Reuses w) :
    ∃ more more', Alike s w more more' ∧ u = w.withWrites [] (sent ++ more') := by
  have hsound := (hs.loaded.of_eq (t := s.withWrites [] sent) rfl rfl).sound
  obtain ⟨v, hflush, rfl⟩ := hc.commit_ok true hs.sound hstack hon
  obtain ⟨v', hflush', rfl⟩ := hc.commit_ok false hsound hstack hoff
  rw [begin_withWrites] at hflush'
  have hfree : ¬ s.begin.Reuses v := by
    rw [Reuses, begin_fresh, begin_marked]
    exact hfree
  obtain ⟨more, more', hmore, rfl⟩ := alike_of_flush hc hs.begin hflush hflush' hfree
  refine ⟨more, more', hmore.of_begin.of_posted ?_, ?_⟩
  · rw [posted, posted, List.map_nil, List.append_nil]
  · exact congrArg ({ v with stack := [] }.withWrites [] ·) (List.append_nil _)

end Surroundings

end Typeahead
