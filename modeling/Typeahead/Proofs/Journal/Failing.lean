import Typeahead.Proofs.Journal.Guarantees
import Typeahead.Proofs.Journal.Roots
import Typeahead.Proofs.Session.Beside

/-!
# A delivery that fails

The client refuses a write while a commit delivers.  The writes up to this one were attempted,
and none of the whole queue is attempted again.  The session is stuck until it is closed; from
then on everything goes on as after a delivery that the client took, with a backend that answers
in the same way from there on, `Backend.Heals`.
-/

namespace Typeahead

/-- The other backend answers like this one up to a delivery, and after it has taken the whole of
it like this one after the attempts. -/
structure Backend.Heals (backend healed : Backend) (before attempts whole : Nat) : Prop where
  earlier : ∀ n < before, healed n = backend n
  later : ∀ n, healed (before + whole + n) = backend (before + attempts + n)

namespace Surroundings

open Exec Session

variable (c : Surroundings) (echo : Backend)

/-- A backend that answers alike up to a session brings about the same session. -/
theorem prepare_of_earlier {s t : Session} {outcome : Except Failure Unit}
    (h : c.prepare s = (outcome, t)) (hearlier : ∀ n < t.sent.length, echo n = c.backend n) :
    (c.withBackend echo).prepare s = (outcome, t) := by
  obtain ⟨new, hsent, hecho⟩ := c.echoes_prepare echo s
  rw [h] at hsent hecho
  dsimp only at hsent hecho
  have hagrees : c.backend.Agrees echo s.sent s.sent new.length := fun n hn => by
    refine hearlier _ ?_
    rw [hsent, List.length_append]
    exact Nat.add_lt_add_left hn _
  have hsame := hecho s.sent hagrees
  rw [← hsent] at hsame
  exact hsame

theorem released_standing_ne (o : Obj) : (released o).standing ≠ .stored := by
  unfold released
  cases hstanding : o.standing with
  | stored => simp
  | pending => simp
  | loose => simp [hstanding]
  | removed => simp [hstanding]
  | displaced => simp [hstanding]
  | detached => simp [hstanding]

/-- Nothing is left to flush in a closed session. -/
theorem isClean_close (s : Session) : s.close.isClean = true := by
  have hnone : (s.objects.map released).any (fun o => o.standing == .stored && o.modified) =
      false := by
    refine List.any_eq_false.mpr fun o ho => ?_
    obtain ⟨p, _, rfl⟩ := List.mem_map.mp ho
    simp [released_standing_ne p]
  unfold isClean close
  dsimp only
  rw [hnone]
  rfl

/-- A commit of a closed session opens a root transaction and ends it. -/
theorem commit_close (s : Session) :
    c.commit s.close = (.ok (), { s.close with created := s.created + 1 }) := by
  have hclean : s.close.begin.isClean = true := s.close.isClean_begin.trans (isClean_close s)
  have hbegin : s.close.begin = s.close.push := rfl
  have hactive : s.close.begin.isActive = true := by
    rw [isActive_begin]
    rfl
  have hnone : (s.close.begin.stack.dropLast.forM fun _ => c.releaseInnermost) s.close.begin =
      (.ok (), s.close.begin) := rfl
  have hproceed : c.proceed s.close.begin = (.ok (), s.close.begin) := by
    rw [c.proceed_of_isActive hactive, c.flush_of_isClean hclean]
  have hprepare : c.prepare s.close = (.ok (), s.close.begin) := by
    unfold prepare
    rw [bind_apply, modify_apply]
    dsimp only
    rw [bind_apply, get_apply]
    dsimp only
    rw [bind_of_ok hnone, hproceed]
  rw [commit, bind_of_ok hprepare, hbegin]
  rfl

end Surroundings

namespace Surroundings.Settled

variable {c d : Surroundings} {root : Nat} {s t u : Session} {outcome : Except Failure Unit}
  {sent : List PendingWrite}

/-- A delivery that was taken beside one that failed. -/
theorem beside {e : Failure} {sent' : List PendingWrite}
    (h : Settled c root s t (.error e) sent) (k : Settled d root s u (.ok ()) sent')
    (hnamed : ∀ e ∈ s.savepoints, e.2 ≠ root) : Session.Beside t u := by
  have houtline : t.outline = [(root, .committed)] := h.outline
  have hstack : u.stack = [] := (Session.outline_eq_nil u).mp k.outline
  refine ⟨⟨root, houtline⟩, ?_, ?_, ?_, ?_⟩
  · rw [h.savepoints, Session.path_eq, houtline]
    simpa using hnamed
  · rw [h.session, k.session]
    rfl
  · rw [hstack]
    exact fun r hr => nomatch hr
  · rw [h.created, k.created, Session.inTransaction, hstack]
    rfl

/-- After a delivery that failed and one that was taken whole, the backends agree. -/
theorem agrees {backend healed : Backend} {n : Nat} {e : Failure} {outcome' : Except Failure Unit}
    (h : Settled c root s t outcome (s.queue.take (n + 1)))
    (k : Settled d root s u outcome' s.queue)
    (hfails : PendingWrite.FailsAt backend s.sent s.queue n e)
    (hheals : backend.Heals healed s.sent.length (n + 1) s.queue.length) (calls : Nat) :
    backend.Agrees healed t.sent u.sent calls := by
  obtain ⟨w, hw, _⟩ := hfails.here
  have hn : n + 1 ≤ s.queue.length := (List.getElem?_eq_some_iff.mp hw).1
  intro m _
  rw [h.calls, k.calls, List.length_append, List.length_append, List.length_map, List.length_map,
    List.length_take_of_le hn]
  exact hheals.later m

end Surroundings.Settled

namespace Running

variable {catalog : Catalog} {backend healed : Backend}

theorem run_append (r : Running) (program rest : List Instruction) :
    r.run catalog backend (program ++ rest) =
      (r.run catalog backend program).run catalog backend rest := List.foldl_append

/-- A commit goes through its two parts. -/
theorem step_commit {r : Running} {s t : Session} {outcome : Except Failure Unit}
    (hprepare : (r.surroundings catalog backend).prepare r.session = (.ok (), s))
    (hsettle : (r.surroundings catalog backend).settle s = (outcome, t)) :
    r.step catalog backend (.session .commit) =
      (outcome.map fun _ => none, { r with session := t }) := by
  have hperform : (r.surroundings catalog backend).perform .commit r.session =
      (outcome.map fun _ => none, t) := by
    rw [Surroundings.perform, Exec.bind_pure_apply, Surroundings.commit, Exec.bind_of_ok hprepare,
      hsettle]
  rw [step, hperform]

/-- A commit that succeeds gives nothing. -/
theorem commit_eq_ok {r : Running}
    (h : (r.step catalog backend (.session .commit)).1.toBool = true) :
    (r.step catalog backend (.session .commit)).1 = .ok none := by
  have hcommit : (r.step catalog backend (.session .commit)).1 =
      ((r.surroundings catalog backend).perform .commit r.session).1 := rfl
  rw [hcommit, Surroundings.perform, Exec.bind_apply] at h ⊢
  rcases hresult : (r.surroundings catalog backend).commit r.session with ⟨outcome, s⟩
  rw [hresult] at h
  cases outcome with
  | ok u => rfl
  | error e => cases h

variable (catalog backend healed) in
/-- Closed, both sessions are the same but for the calls made, once the stuck one has opened and
ended as many transactions. -/
theorem close_of_beside {a b : Running} (h : Session.Beside a.session b.session)
    (hscopes : b.scopes = a.scopes) :
    let counted := if b.session.inTransaction then [Instruction.session .commit] else []
    let closed := a.run catalog backend (.session .close :: counted)
    closed.session.sent = a.session.sent ∧
      (b.step catalog healed (.session .close)).2 = closed.withSent b.session.sent := by
  intro counted closed
  have hb : (b.step catalog healed (.session .close)).2 =
      ⟨a.session.close.aside [] b.session.created b.session.sent, a.scopes⟩ := by
    rw [← hscopes, ← h.close_eq]
    rfl
  rw [hb, h.created]
  cases hopen : b.session.inTransaction with
  | false =>
      have hclosed : closed = { a with session := a.session.close } := by
        simp only [closed, counted, hopen, if_neg Bool.false_ne_true]
        rfl
      rw [hclosed]
      exact ⟨rfl, rfl⟩
  | true =>
      have hcommit : (({ a with session := a.session.close } : Running).step catalog backend
          (.session .commit)).2 =
            { a with session := { a.session.close with created := a.session.created + 1 } } := by
        unfold step
        dsimp only
        rw [Surroundings.perform, Exec.bind_pure_apply, Surroundings.commit_close]
      have hclosed : closed =
          { a with session := { a.session.close with created := a.session.created + 1 } } := by
        simp only [closed, counted, hopen, if_true]
        rw [← hcommit]
        rfl
      rw [hclosed]
      exact ⟨rfl, rfl⟩

/-- A commit that the client refuses leaves a session beside that which one leaves that it took. -/
theorem beside_of_fails {r : Running} {h : History} {s : Session} {n : Nat} {e : Failure}
    (L : Ledger r.session h) (henabled : r.scopes.enabled = true)
    (hprepare : (r.surroundings catalog backend).prepare r.session = (.ok (), s))
    (hfails : PendingWrite.FailsAt backend s.sent s.queue n e)
    (hheals : backend.Heals healed s.sent.length (n + 1) s.queue.length)
    (hok : (r.step catalog healed (.session .commit)).1 = .ok none) :
    let failed := (r.step catalog backend (.session .commit)).2
    let taken := (r.step catalog healed (.session .commit)).2
    Session.Beside failed.session taken.session ∧ taken.scopes = failed.scopes ∧
      ∀ m, backend.Agrees healed failed.session.sent taken.session.sent m := by
  obtain ⟨root, _, houtline, _⟩ := Surroundings.outline_of_prepare L.sound L.outer hprepare
  have hnamed : ∀ e ∈ s.savepoints, e.2 ≠ root := by
    have hledger := (Surroundings.kept_prepare L hprepare).ledger
    rintro e he rfl
    refine (hledger.named e he).2 ?_
    rw [Ledger.path_of_root houtline]
    rfl
  -- both deliveries start from the same session
  have hprepare' : (r.surroundings catalog healed).prepare r.session = (.ok (), s) :=
    (r.surroundings catalog backend).prepare_of_earlier healed hprepare hheals.earlier
  obtain ⟨outcome, t, sent, hsettle, hsettled⟩ :=
    Surroundings.settle_spec (r.surroundings catalog backend) houtline
  obtain ⟨outcome', t', sent', hsettle', hsettled'⟩ :=
    Surroundings.settle_spec (r.surroundings catalog healed) houtline
  have hstep' := step_commit hprepare' hsettle'
  rw [hstep'] at hok
  obtain ⟨rfl, hsent⟩ := hsettled.failing henabled n e hfails
  obtain rfl : outcome' = .ok () := by
    cases outcome' with
    | ok u => rfl
    | error e => cases hok
  obtain rfl := hsettled'.enabled henabled rfl
  subst hsent
  rw [step_commit hprepare hsettle, hstep']
  exact ⟨hsettled.beside hsettled' hnamed, rfl, hsettled.agrees hsettled' hfails hheals⟩

/-- Closing a session makes up for a delivery that failed: what comes after it goes on as after
one that the client took. -/
theorem run_heals {r : Running} {h : History} {s : Session} {n : Nat} {e : Failure}
    (L : Ledger r.session h) (henabled : r.scopes.enabled = true)
    (hprepare : (r.surroundings catalog backend).prepare r.session = (.ok (), s))
    (hfails : PendingWrite.FailsAt backend s.sent s.queue n e)
    (hheals : backend.Heals healed s.sent.length (n + 1) s.queue.length)
    (hok : (r.step catalog healed (.session .commit)).1 = .ok none)
    {waiting : List Instruction} (hwaiting : ∀ k ∈ waiting, k ≠ .session .close)
    (later : List Instruction) (i : Instruction) :
    let failed := (r.step catalog backend (.session .commit)).2
    let taken := (r.step catalog healed (.session .commit)).2
    let edited := taken.run catalog healed (failed.carried catalog backend waiting)
    let counted := if edited.session.inTransaction then [.session .commit] else []
    let a := failed.run catalog backend (waiting ++ .session .close :: (counted ++ later))
    let b := edited.run catalog healed (.session .close :: later)
    (b.step catalog healed i).1 = (a.step catalog backend i).1 ∧
      ∃ new, (a.step catalog backend i).2.session.sent = failed.session.sent ++ new ∧
        (b.step catalog healed i).2 =
          (a.step catalog backend i).2.withSent (taken.session.sent ++ new) := by
  obtain ⟨hbeside, hscopes, hagrees⟩ := beside_of_fails L henabled hprepare hfails hheals hok
  intro failed taken edited counted a b
  -- up to the close both sessions go side by side
  have hshares : Shares failed taken (failed.run catalog backend waiting) edited :=
    run_beside hbeside hscopes hagrees hwaiting
  obtain ⟨new, hnew, hnew'⟩ := hshares.sent
  obtain ⟨hclosed, hsame⟩ :=
    close_of_beside catalog backend healed hshares.beside hshares.scopes
  have ha : a = ((failed.run catalog backend waiting).run catalog backend
      (.session .close :: counted)).run catalog backend later := by
    rw [← run_append, ← run_append]
    rfl
  have hb : b = (((failed.run catalog backend waiting).run catalog backend
      (.session .close :: counted)).withSent edited.session.sent).run catalog healed later := by
    rw [← hsame]
    rfl
  have hagrees' : ∀ m, backend.Agrees healed ((failed.run catalog backend waiting).run catalog
      backend (.session .close :: counted)).session.sent edited.session.sent m := by
    rw [hclosed]
    exact hshares.agrees hagrees
  obtain ⟨houtcome, more, hmore, hafter⟩ := run_step_echoes catalog backend healed
    ((failed.run catalog backend waiting).run catalog backend (.session .close :: counted)) later i
    hagrees'
  rw [ha, hb]
  refine ⟨houtcome, new ++ more, ?_, ?_⟩
  · rw [hmore, hclosed, hnew, List.append_assoc]
  · rw [hafter, hnew', List.append_assoc]

end Running

namespace Journal

variable {catalog : Catalog} {backend : Backend}

/-- After any run, a commit prepares a session whose queue waits for delivery, with writes switched
on, and the client refuses the write at a position.  Then the writes up to this position are
attempted and no other one, the failure is the outcome of the commit, and the queue is empty.
Whatever comes later, no write of the queue is attempted again, and later commits deliver what is
due in their own root transactions.  They do so as if the delivery had not failed.  Before it is
closed the stuck session may be used in any way.  What it does not refuse, and what is not in vain,
is also done after a delivery that the client took.  From the close on every instruction has the
outcome that it has there, with the same session and the same new calls; only transactions are
numbered in order, and when the edits opened one there, an empty commit counts it here. -/
theorem commit_delivers_at_most_once (program : List Instruction) {s : Session} {n : Nat}
    {e : Failure}
    (henabled : (Journal.initial.run catalog backend program).running.scopes.enabled = true)
    (hprepare : ((Journal.initial.run catalog backend program).running.surroundings catalog
      backend).prepare (Journal.initial.run catalog backend program).running.session = (.ok (), s))
    (hfails : PendingWrite.FailsAt backend s.sent s.queue n e) :
    let j := Journal.initial.run catalog backend program
    let j' := (j.step catalog backend (.session .commit)).2
    j.running = Running.initial.run catalog backend program ∧
      j.running.step catalog backend (.session .commit) =
        ((j.step catalog backend (.session .commit)).1, j'.running) ∧
      (j.step catalog backend (.session .commit)).1 = .error e ∧
      j'.running.session.sent = s.sent ++ (s.queue.take (n + 1)).map PendingWrite.call ∧
      j'.running.session.queue = [] ∧
      j'.NeverSends catalog backend s.queue ∧
      ∀ healed, backend.Heals healed s.sent.length (n + 1) s.queue.length →
        (j.running.step catalog healed (.session .commit)).1 = .ok none →
        ∀ waiting : List Instruction, (∀ k ∈ waiting, k ≠ .session .close) →
          ∀ later i,
            let taken := (j.running.step catalog healed (.session .commit)).2
            let edited := taken.run catalog healed
              (j'.running.carried catalog backend waiting)
            let counted := if edited.session.inTransaction then [.session .commit] else []
            let a := j'.running.run catalog backend
              (waiting ++ .session .close :: (counted ++ later))
            let b := edited.run catalog healed (.session .close :: later)
            (b.step catalog healed i).1 = (a.step catalog backend i).1 ∧
              ∃ new, (a.step catalog backend i).2.session.sent =
                  j'.running.session.sent ++ new ∧
                (b.step catalog healed i).2 =
                  (a.step catalog backend i).2.withSent (taken.session.sent ++ new) := by
  intro j j'
  refine ⟨run_running catalog backend program .initial, rfl, ?_⟩
  have hj : j.Sound catalog backend := sound_initial.run program
  obtain ⟨hj', hsends⟩ := step_sends hj (.session .commit)
  rcases hsends with ⟨_, hpasses⟩ | ⟨_, root, _, sent, hdelivers⟩
  · -- a commit that makes nothing last fails before it comes to its end
    obtain ⟨e', s', hprepare', _⟩ := hpasses.fails rfl
    cases hprepare.symm.trans hprepare'
  · obtain ⟨s', hprepare', hqueue, _, hsent, hanswers⟩ := hdelivers.prepared
    obtain rfl : s = s' := congrArg Prod.snd (hprepare.symm.trans hprepare')
    obtain ⟨houtcome, rfl⟩ := (hanswers henabled).1 n e hfails
    refine ⟨houtcome, hsent, hdelivers.queue, ?_,
      fun healed hheals hok waiting hwaiting later i => ?_⟩
    · rw [hqueue]
      exact hj'.neverSends hdelivers.committed _
    · exact Running.run_heals hj.ledger henabled hprepare hfails hheals hok hwaiting later i

/-- A call that the client refuses is the failure of its write. -/
theorem answer_of_refused {w : PendingWrite} {sent : List Call} {fault : BackendFault}
    (h : backend sent.length = .error fault) : w.answer backend sent = .error (.backend fault) := by
  have hcall (c : Call) :
      Exchange.call backend c sent = (.error (.backend fault), sent ++ [c]) := by
    unfold Exchange.call
    rw [h]
  unfold PendingWrite.answer Index.sendAction
  unfold Client.indexDocument Client.updateDocument Client.deleteDocument Exchange.andThen
  cases w.action with
  | index => simp only [if_true, hcall]
  | update => simp only [if_true, hcall]
  | delete => simp only [if_true, hcall]

/-- Two places wait for a commit. -/
def pair : List Instruction :=
  [.session (.add "bern" "Place" [("name", .text "Bern")]),
    .session (.add "basel" "Place" [("name", .text "Basel")])]

/-- The client cannot be reached. -/
def refusal : BackendFault := .broken "ConnectionError" "refused"

/-- A backend that refuses the first call and takes every later one. -/
def refusing : Backend := fun n => if n = 0 then .error refusal else accepting n

/-- The run of `pair`. -/
def paired : Journal := Journal.initial.run places refusing pair

/-- What the commit of `pair` comes to before it delivers. -/
def pairedReady : Except Failure Unit × Session :=
  (paired.running.surroundings places refusing).prepare paired.running.session

/-- The run of `pair` and a commit. -/
def pairedCommitted : Journal := (paired.step places refusing (.session .commit)).2

theorem paired_eq : Journal.initial.run places refusing pair = paired := rfl

theorem pairedCommitted_eq :
    (paired.step places refusing (.session .commit)).2 = pairedCommitted := rfl

theorem paired_facts :
    paired.running.scopes.enabled = true ∧ pairedReady.1.toBool = true ∧
      pairedReady.2.sent.length = 0 ∧ pairedReady.2.queue.length = 2 ∧
      (paired.running.step places accepting (.session .commit)).1.toBool = true := by
  decide +kernel

/-- The first of the two writes is refused. -/
theorem failsAt_paired :
    PendingWrite.FailsAt refusing pairedReady.2.sent pairedReady.2.queue 0 (.backend refusal) := by
  obtain ⟨_, _, hsent, hqueue, _⟩ := paired_facts
  rcases hws : pairedReady.2.queue with _ | ⟨w, ws⟩
  · rw [hws] at hqueue
    cases hqueue
  · refine PendingWrite.FailsAt.zero_iff.mpr (answer_of_refused ?_)
    rw [hsent]
    rfl

/-- With both writes taken, the other calls are taken as well. -/
theorem heals_refusing : refusing.Heals accepting 0 1 2 where
  earlier n hn := absurd hn (Nat.not_lt_zero n)
  later n := by
    unfold refusing
    rw [if_neg (by omega)]
    rfl

/-- A rollback is refused, and a place is added to the stuck session. -/
def pairWaiting : List Instruction :=
  [.session .rollback,
    .setStanding true,
    .session (.add "chur" "Place" [("name", .text "Chur")]),
    .session .commit]

/-- The delivery of `pair` is taken, and the place is added. -/
def pairEdited : Running :=
  (paired.running.step places accepting (.session .commit)).2.run places accepting
    (pairedCommitted.running.carried places refusing pairWaiting)

theorem pairEdited_eq :
    (paired.running.step places accepting (.session .commit)).2.run places accepting
      (pairedCommitted.running.carried places refusing pairWaiting) = pairEdited := rfl

theorem pairEdited_facts :
    (pairedCommitted.running.carried places refusing pairWaiting).length = 2 ∧
      pairEdited.session.fresh.length = 1 ∧ pairEdited.session.inTransaction = true := by
  decide +kernel

theorem ne_close_of_mem_pairWaiting : ∀ k ∈ pairWaiting, k ≠ .session .close := by
  simp [pairWaiting]

theorem commit_delivers_at_most_once_pair :
    paired.running.scopes.enabled = true ∧
      pairedReady.1 = .ok () ∧
      PendingWrite.FailsAt refusing pairedReady.2.sent pairedReady.2.queue 0 (.backend refusal) ∧
      (paired.step places refusing (.session .commit)).1 = .error (.backend refusal) ∧
      pairedCommitted.running.session.sent.length = 1 ∧
      pairedCommitted.NeverSends places refusing pairedReady.2.queue ∧
      pairEdited.session.fresh.length = 1 ∧
      let later := [.session (.add "davos" "Place" [("name", .text "Davos")])]
      let a := pairedCommitted.running.run places refusing
        (pairWaiting ++ .session .close :: ([.session .commit] ++ later))
      let b := pairEdited.run places accepting (.session .close :: later)
      (b.step places accepting (.session .commit)).1 =
        (a.step places refusing (.session .commit)).1 := by
  obtain ⟨henabled, hready, hsent, hqueue, haccepted⟩ := paired_facts
  obtain ⟨_, hfresh, hopen⟩ := pairEdited_facts
  have hok : pairedReady.1 = .ok () := by
    cases hready' : pairedReady.1 with
    | ok u => rfl
    | error e =>
        rw [hready'] at hready
        cases hready
  have htaken : (paired.running.step places accepting (.session .commit)).1 = .ok none :=
    Running.commit_eq_ok haccepted
  have hdelivers := @commit_delivers_at_most_once places refusing pair pairedReady.2 0
    (.backend refusal) henabled (Prod.ext hok rfl) failsAt_paired
  dsimp only at hdelivers
  rw [paired_eq, pairedCommitted_eq] at hdelivers
  obtain ⟨_, _, houtcome, hattempts, _, hnever, hasif⟩ := hdelivers
  refine ⟨henabled, hok, failsAt_paired, houtcome, ?_, hnever, hfresh, ?_⟩
  · rw [hattempts, List.length_append, List.length_map, List.length_take, hsent, hqueue]
    rfl
  · have hheals : refusing.Heals accepting pairedReady.2.sent.length (0 + 1)
        pairedReady.2.queue.length := by
      rw [hsent, hqueue]
      exact heals_refusing
    have hsame := (hasif accepting hheals htaken pairWaiting ne_close_of_mem_pairWaiting
      [.session (.add "davos" "Place" [("name", .text "Davos")])] (.session .commit)).1
    rw [pairEdited_eq, if_pos hopen] at hsame
    exact hsame

end Journal

end Typeahead
