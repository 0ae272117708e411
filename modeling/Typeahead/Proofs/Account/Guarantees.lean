import Typeahead.Proofs.Account.Commands
import Typeahead.Proofs.Journal.Guarantees

/-!
# What a commit delivers

For classes whose search configurations all write on commit, runs whose writes the client accepts,
and savepoints that are released, rolled back or ended by what is around them.  A commit sends what
is pending in the account of the run, and nothing else is ever sent.
-/

namespace Typeahead

namespace Surroundings

theorem filter_filterMap_writeOf (c : Surroundings) (s : Session) (a b : Action) (ids : List Nat) :
    (ids.filterMap (c.writeOf s a)).filter (fun w => w.action = b) =
      if a = b then ids.filterMap (c.writeOf s a) else [] := by
  by_cases hab : a = b
  · rw [if_pos hab]
    refine List.filter_eq_self.mpr fun w hw => decide_eq_true ?_
    obtain ⟨id, _, hid⟩ := List.mem_filterMap.mp hw
    exact (path_of_writeOf hid).2.trans hab
  · rw [if_neg hab]
    refine List.filter_eq_nil_iff.mpr fun w hw hb => ?_
    obtain ⟨id, _, hid⟩ := List.mem_filterMap.mp hw
    exact hab ((path_of_writeOf hid).2.symm.trans (of_decide_eq_true hb))

/-- The changes of a flush are in order: new objects, changed ones, removed ones. -/
theorem IsFlush.ordered {catalog : Catalog} {backend : Backend} {ws : List PendingWrite}
    (h : IsFlush catalog backend ws) :
    ws = ws.filter (fun w => w.action = .index) ++ ws.filter (fun w => w.action = .update) ++
      ws.filter fun w => w.action = .delete := by
  obtain ⟨enabled, s, t, _, rfl⟩ := h
  simp only [written, List.filter_append, filter_filterMap_writeOf, reduceCtorEq, if_true, if_false,
    List.append_nil, List.nil_append]

theorem isFlush_of_flushWrites (c : Surroundings) {s : Session} {ws : List PendingWrite}
    (h : c.flushWrites s = .ok ws) : IsFlush c.catalog c.backend ws := by
  unfold flushWrites at h
  rcases hflush : c.flush s with ⟨r, t⟩
  rw [hflush] at h
  cases r with
  | error e => cases h
  | ok u => exact ⟨c.enabled, s, t, hflush, (Except.ok.inj h).symm⟩

end Surroundings

namespace Account

variable {catalog : Catalog} {backend : Backend} {a : Account} {j : Journal}

/-- What was sent was delivered, and what was delivered or waits was flushed, each change once and
in its order. -/
structure Faithful (catalog : Catalog) (backend : Backend) (a : Account) : Prop where
  sent : a.sent.Sublist a.delivered
  ordered : (a.delivered ++ a.pending).Sublist a.flushes.flatten
  flushes : ∀ ws ∈ a.flushes, Surroundings.IsFlush catalog backend ws

theorem faithful_empty : empty.Faithful catalog backend :=
  ⟨List.Sublist.refl [], List.Sublist.refl [], List.forall_mem_nil _⟩

theorem Faithful.step (ha : a.Faithful catalog backend) (r : Running) (i : Instruction) :
    (a.step catalog backend r i).Faithful catalog backend := by
  have hnotes := a.notes_step catalog backend r i
  refine ⟨hnotes.sent ha.sent, hnotes.ordered ha.ordered, fun ws hws => ?_⟩
  rcases hnotes.flushes with hsame | ⟨vs, hvs, hnoted⟩
  · exact ha.flushes ws (hsame ▸ hws)
  · rw [hnoted] at hws
    rcases List.mem_append.mp hws with hws | hws
    · exact ha.flushes ws hws
    · rw [List.mem_singleton.mp hws]
      exact (r.surroundings catalog backend).isFlush_of_flushWrites hvs

/-- What one instruction keeps, a run keeps. -/
theorem Faithful.run (ha : a.Faithful catalog backend) (r : Running) (program : List Instruction) :
    (run catalog backend r a program).Faithful catalog backend := by
  induction program generalizing r a with
  | nil => exact ha
  | cons i program ih => exact ih (ha.step r i) _

/-- A commit that is prepared delivers what is pending and the changes of its own flush. -/
theorem accepted_of_delivered {written : Except Failure (List PendingWrite)} {enabled : Bool}
    (haccepted : ∀ w ∈ (a.flush written (commit enabled)).delivered, w.Accepted backend)
    (hwhole : a.broken = false) (ws : List PendingWrite) (hwritten : written = .ok ws) :
    ∀ w ∈ a.pending ++ ws, w.Accepted backend := by
  rw [hwritten, a.flush_of_ok ws hwhole, commit_delivered] at haccepted
  exact fun w hw => haccepted w (List.mem_append_right _ hw)

/-- What one instruction keeps. -/
theorem Tracks.step (hcatalog : catalog.OnCommit) (hj : j.Sound catalog backend)
    (T : a.Tracks j.running.session) (i : Instruction)
    (haccepted : ∀ w ∈ (a.step catalog backend j.running i).delivered, w.Accepted backend)
    (hleft : (a.step catalog backend j.running i).left = false) :
    (a.step catalog backend j.running i).Tracks (j.running.step catalog backend i).2.session := by
  cases i with
  | session command =>
      refine T.perform hj.ledger hcatalog command (fun hcommit => ?_) hleft
      subst hcommit
      exact accepted_of_delivered haccepted
  | setStanding enabled => exact T
  | enter name enabled => exact T
  | leave name => exact T

theorem Tracks.run (hcatalog : catalog.OnCommit) (hj : j.Sound catalog backend)
    (T : a.Tracks j.running.session) (program : List Instruction)
    (haccepted : ∀ w ∈ (run catalog backend j.running a program).delivered, w.Accepted backend)
    (hleft : (run catalog backend j.running a program).left = false) :
    (run catalog backend j.running a program).Tracks
      (j.running.run catalog backend program).session := by
  induction program generalizing j a with
  | nil => exact T
  | cons i program ih =>
      obtain ⟨hdelivered, hstays⟩ := (a.step catalog backend j.running i).run_goes_on catalog
        backend (j.running.step catalog backend i).2 program
      have hstep := T.step hcatalog hj i (fun w hw => haccepted w (hdelivered.subset hw))
        (Bool.eq_false_iff.mpr fun h => by
          rw [Account.run, hstays h] at hleft
          cases hleft)
      exact ih (Journal.step_sends hj i).1 hstep haccepted hleft

/-- A commit sends what is pending and the changes of its own flush, unless that cannot be made. -/
theorem Tracks.commit_delivers (hcatalog : catalog.OnCommit) (hj : j.Sound catalog backend)
    (T : a.Tracks j.running.session)
    (haccepted : ∀ w ∈ (a.step catalog backend j.running (.session .commit)).delivered,
      w.Accepted backend) :
    let r := j.running
    let r' := (r.step catalog backend (.session .commit)).2
    let outcome := (r.step catalog backend (.session .commit)).1
    let written := (r.surroundings catalog backend).flushWrites r.session
    (∃ e, (a.broken = true ∨ written = .error e) ∧ outcome = .error e ∧
        r'.session.writes = r.session.writes) ∨
      ∃ ws, a.broken = false ∧ written = .ok ws ∧ outcome = .ok none ∧ r'.session.queue = [] ∧
        r'.session.writes = r.session.writes ++
          (if r.scopes.enabled then a.pending ++ ws else []).map PendingWrite.call := by
  intro r r' outcome written
  obtain ⟨T', hcommit⟩ := T.commit (c := r.surroundings catalog backend) hj.ledger hcatalog
    (accepted_of_delivered haccepted)
  have hstep : r.step catalog backend (.session .commit) =
      (((r.surroundings catalog backend).commit r.session).1.map fun _ => none,
        { r with session := ((r.surroundings catalog backend).commit r.session).2 }) := by
    rw [Running.step, Surroundings.perform, Exec.bind_pure_apply]
  have hsession : r'.session = ((r.surroundings catalog backend).commit r.session).2 := by
    rw [show r' = _ from congrArg Prod.snd hstep]
  have houtcome : outcome =
      ((r.surroundings catalog backend).commit r.session).1.map fun _ => none :=
    congrArg Prod.fst hstep
  rw [hsession, houtcome, T'.writes, T.writes]
  rcases hcommit with ⟨ws, hwhole, hwrites, hok⟩ | ⟨e, hfails, herror⟩
  · refine Or.inr ⟨ws, hwhole, hwrites, ?_, ?_, ?_⟩
    · rw [hok]
      rfl
    · rw [hwrites, a.flush_of_ok ws hwhole] at T'
      exact T'.queue_eq rfl
    · rw [hwrites, a.flush_of_ok ws hwhole, a.commit_sent ws, List.map_append]
      rfl
  · refine Or.inl ⟨e, hfails, ?_, ?_⟩
    · rw [herror]
      rfl
    · rw [a.flush_sent hfails]

/-- After any run in which no broken savepoint was left, and in which the client accepts what a
commit delivers: only a commit sends document writes.  One whose transaction is broken or whose
flush fails sends none.  Any other commit succeeds and empties the queue.  With writes switched on
it sends what is pending, which are the changes flushed in its root transaction under savepoints
that were not rolled back, and the changes of its own flush after these.  All that was ever sent was
delivered, and all that was delivered or is pending was flushed, each change once and in the order
of the flushes.  The changes of a flush are new objects, changed ones and removed ones, as they were
captured by it. -/
theorem step_delivers_pending (hcatalog : catalog.OnCommit) (program : List Instruction)
    (i : Instruction)
    (haccepted : ∀ w ∈ ((Account.run catalog backend .initial .empty program).step catalog backend
      (Running.initial.run catalog backend program) i).delivered, w.Accepted backend)
    (hleft : ((Account.run catalog backend .initial .empty program).step catalog backend
      (Running.initial.run catalog backend program) i).left = false) :
    let r := Running.initial.run catalog backend program
    let r' := (r.step catalog backend i).2
    let outcome := (r.step catalog backend i).1
    let written := (r.surroundings catalog backend).flushWrites r.session
    let a := Account.run catalog backend .initial .empty program
    let a' := a.step catalog backend r i
    (i ≠ .session .commit → r'.session.writes = r.session.writes) ∧
      (i = .session .commit →
        (∃ e, (a.broken = true ∨ written = .error e) ∧ outcome = .error e ∧
          r'.session.writes = r.session.writes) ∨
        ∃ ws, a.broken = false ∧ written = .ok ws ∧ outcome = .ok none ∧ r'.session.queue = [] ∧
          r'.session.writes = r.session.writes ++
            (if r.scopes.enabled then a.pending ++ ws else []).map PendingWrite.call) ∧
      r'.session.writes = a'.sent.map PendingWrite.call ∧ a'.sent.Sublist a'.delivered ∧
      (a'.delivered ++ a'.pending).Sublist a'.flushes.flatten ∧
      ∀ ws ∈ a'.flushes, Surroundings.IsFlush catalog backend ws ∧
        ws = ws.filter (fun w => w.action = .index) ++ ws.filter (fun w => w.action = .update) ++
          ws.filter fun w => w.action = .delete := by
  intro r r' outcome written a a'
  have hj : (Journal.initial.run catalog backend program).Sound catalog backend :=
    Journal.sound_initial.run program
  have hrunning : (Journal.initial.run catalog backend program).running = r :=
    Journal.run_running catalog backend program .initial
  have hnotes := a.notes_step catalog backend r i
  have T : a.Tracks r.session :=
    tracks_empty.run (j := .initial) hcatalog Journal.sound_initial program
      (fun w hw => haccepted w (hnotes.delivered.subset hw))
      (Bool.eq_false_iff.mpr fun h => by
        rw [hnotes.left h] at hleft
        cases hleft)
  rw [← hrunning] at T
  have T' : a'.Tracks r'.session := by
    have hstep := T.step hcatalog hj i
    rw [hrunning] at hstep
    exact hstep haccepted hleft
  have ha' : a'.Faithful catalog backend := (faithful_empty.run .initial program).step r i
  refine ⟨fun hi => ?_, fun hi => ?_, T'.writes, ha'.sent, ha'.ordered,
    fun ws hws => ⟨ha'.flushes ws hws, (ha'.flushes ws hws).ordered⟩⟩
  · rw [hrunning] at T
    rw [T'.writes, T.writes]
    exact congrArg _ (a.step_sent catalog backend r hi)
  · have hcommit := T.commit_delivers hcatalog hj
    rw [hrunning] at hcommit
    subst hi
    exact hcommit haccepted

/-- The accepting backend takes every write whose id and index can be noted. -/
theorem accepted_accepting {w : PendingWrite} (hid : w.id.isWritable = true)
    (hindex : w.searchable.index.name.isWritable = true) : w.Accepted Journal.accepting := by
  intro sent
  have hnote : Client.noteWrite w.searchable.index.name w.id
      (.dict [(.text "result", .text "ok")]) = .ok (.dict [(.text "result", .text "ok")]) := by
    have hresult : (Entries.get [(.text "result", .text "ok")] "result").isWritable = true := by
      decide +kernel
    rw [Client.noteWrite, Value.requireWritable, if_pos hid, Value.requireWritable, if_pos hindex]
    simp only [Value.requireWritable, if_pos hresult]
    rfl
  refine ⟨true, ?_⟩
  unfold Index.sendAction Client.indexDocument Client.updateDocument Client.deleteDocument
  unfold Exchange.andThen Exchange.lift Exchange.call Journal.accepting
  cases w.action with
  | index => simp only [if_true, hnote]
  | update => simp only [if_true, hnote]
  | delete => simp only [if_true, hnote]

/-- A root transaction is rolled back and another one is closed.  In the third one a savepoint is
released, another one is rolled back to, and a place is left to the flush of the commit. -/
def touring : List Instruction :=
  [.session (.add "genf" "Place" [("name", .text "Genf")]),
    .session .flush,
    .session .rollback,
    .session (.beginNested "outing"),
    .session (.add "lugano" "Place" [("name", .text "Lugano")]),
    .session .flush,
    .session .close,
    .session (.add "bern" "Place" [("name", .text "Bern")]),
    .session (.beginNested "trip"),
    .session (.add "basel" "Place" [("name", .text "Basel")]),
    .session .flush,
    .session (.release "trip"),
    .session (.beginNested "detour"),
    .session (.add "chur" "Place" [("name", .text "Chur")]),
    .session .flush,
    .session (.rollbackTo "detour"),
    .session (.add "thun" "Place" [("name", .text "Thun")])]

/-- The run of `touring`. -/
def toured : Running := Running.initial.run Journal.places Journal.accepting touring

/-- The account of `touring`. -/
def touringAccount : Account := run Journal.places Journal.accepting .initial .empty touring

/-- The account of `touring` and a commit. -/
def committedAccount : Account :=
  touringAccount.step Journal.places Journal.accepting toured (.session .commit)

/-- The run of `touring` and a commit. -/
def touredCommitted : Running :=
  (toured.step Journal.places Journal.accepting (.session .commit)).2

theorem toured_eq : Running.initial.run Journal.places Journal.accepting touring = toured := rfl

theorem touringAccount_eq :
    run Journal.places Journal.accepting .initial .empty touring = touringAccount := rfl

theorem committedAccount_eq : touringAccount.step Journal.places Journal.accepting toured
    (.session .commit) = committedAccount := rfl

theorem touredCommitted_eq :
    (toured.step Journal.places Journal.accepting (.session .commit)).2 = touredCommitted := rfl

theorem committedAccount_facts :
    (∀ w ∈ committedAccount.delivered, w.id.isWritable = true ∧
        w.searchable.index.name.isWritable = true) ∧
      committedAccount.left = false ∧ toured.scopes.enabled = true ∧
      committedAccount.flushes.flatten.length = 6 ∧ touringAccount.pending.length = 2 ∧
      toured.session.writes.length = 0 ∧ committedAccount.sent.length = 3 := by
  decide +kernel

/-- Of six places that were flushed three are sent: one of the root transaction, one of the
savepoint that was released, and that of the commit's own flush. -/
theorem step_delivers_pending_touring :
    Journal.places.OnCommit ∧
      (∀ w ∈ committedAccount.delivered, w.Accepted Journal.accepting) ∧
      committedAccount.left = false ∧ committedAccount.flushes.flatten.length = 6 ∧
      touredCommitted.session.queue = [] ∧ ∃ ws, touringAccount.pending.length = 2 ∧
        ws.length = 1 ∧ touredCommitted.session.writes =
          toured.session.writes ++ (touringAccount.pending ++ ws).map PendingWrite.call := by
  obtain ⟨hwritable, hleft, henabled, hflushed, hpending, hbefore, hafter⟩ := committedAccount_facts
  have haccepted : ∀ w ∈ committedAccount.delivered, w.Accepted Journal.accepting :=
    fun w hw => accepted_accepting (hwritable w hw).1 (hwritable w hw).2
  have hstep := @step_delivers_pending _ Journal.accepting Journal.places_onCommit touring
    (.session .commit)
  dsimp only at hstep
  rw [toured_eq, touringAccount_eq, committedAccount_eq, touredCommitted_eq] at hstep
  obtain ⟨_, hcommit, hsent, _⟩ := hstep haccepted hleft
  refine ⟨Journal.places_onCommit, haccepted, hleft, hflushed, ?_⟩
  rcases hcommit rfl with ⟨_, _, _, hsame⟩ | ⟨ws, _, _, _, hqueue, hwrites⟩
  · have hlength := congrArg List.length (hsent.symm.trans hsame)
    rw [List.length_map, hafter, hbefore] at hlength
    cases hlength
  · rw [henabled, if_pos rfl] at hwrites
    refine ⟨hqueue, ws, hpending, ?_, hwrites⟩
    have hlength := congrArg List.length (hsent.symm.trans hwrites)
    rw [List.length_map, hafter, List.length_append, hbefore, List.length_map, List.length_append,
      hpending] at hlength
    omega

end Account

end Typeahead
