import Typeahead.Proofs.Journal.Committing

/-!
# What an instruction sends

For classes with any search configurations.  An instruction makes nothing last, and then the
only document writes that it sends are those of listeners, `Journal.Passes`; or it is a commit
that makes a root transaction last, and it sends what is due in it as far as the client takes
it, `Journal.Delivers`.
-/

namespace Typeahead

namespace History

/-- The database work of a captured write was undone: a transaction around it was undone, or
a failed flush broke it. -/
def Undoes (h : History) (w : PendingWrite) : Prop :=
  ∃ id ∈ w.path, id ∈ h.met .undone ∨ id ∈ h.met .broken

instance (h : History) : DecidablePred h.Undoes := fun w =>
  inferInstanceAs (Decidable (∃ id ∈ w.path, id ∈ h.met .undone ∨ id ∈ h.met .broken))

/-- The captured writes of a root transaction that hang on no undone transaction, and on no
committed one besides the root. -/
def due (h : History) (root : Nat) : List PendingWrite :=
  h.captures.filter fun w => w.path.getLast? = some root ∧
    ∀ id ∈ w.path, id ∉ h.met .undone ∧ (id ∈ h.met .committed → id = root)

/-- The changes flushed in a root transaction whose savepoints were all released. -/
def survivors (h : History) (root : Nat) : List PendingWrite :=
  h.flushes.filter fun w => w.path.getLast? = some root ∧
    ∀ id ∈ w.path, id = root ∨ id ∈ h.met .released

/-- A choice that leaves out what failed flushes captured chooses from what was flushed. -/
theorem filter_captures (h : History) {p : PendingWrite → Bool}
    (hp : ∀ ws, .captured ws ∈ h → ∀ w ∈ ws, p w = false) :
    h.captures.filter p = h.flushes.filter p := by
  induction h with
  | nil => rfl
  | cons e h ih =>
      have htail := ih fun ws hws => hp ws (List.mem_cons_of_mem e hws)
      have hhead : (Event.captures e).filter p = (Event.flushes e).filter p := by
        cases e with
        | flushed ws => rfl
        | met fate id => rfl
        | captured ws =>
            refine List.filter_eq_nil_iff.mpr fun w hw => ?_
            rw [hp ws List.mem_cons_self w hw]
            exact Bool.false_ne_true
      rw [captures, flushes, List.flatMap_cons, List.flatMap_cons, List.filter_append,
        List.filter_append, hhead, ← captures, ← flushes, htail]

end History

namespace Ledger

variable {s : Session} {h : History} {root : Nat}

theorem path_of_root (hs : s.outline = [(root, .active)]) : s.path = [root] := by
  rw [Session.path_eq, hs, List.map_singleton]

/-- The fates of the root transaction when it is the only one. -/
theorem root_unmet (L : Ledger s h) (hs : s.outline = [(root, .active)]) :
    root ∉ h.met .broken ∧ root ∉ h.met .undone ∧ root ∉ h.met .committed ∧
      root ∉ h.met .released := by
  have hroot : root ∈ s.path := by
    rw [path_of_root hs]
    exact List.mem_singleton_self root
  have hactive : ∀ e ∈ s.outline, e.2 = .active := by
    rw [hs]
    exact fun e he => by rw [List.mem_singleton.mp he]
  obtain ⟨hb, hc⟩ := L.not_met hactive root hroot
  obtain ⟨hr, hu, _⟩ := L.unfinished root hroot
  exact ⟨hb, hu, hc, hr⟩

/-- At the end of a commit the queue holds what is due. -/
theorem queue_eq_due (L : Ledger s h) (hs : s.outline = [(root, .active)]) :
    s.queue = (h ++ History.fates .committed [root]).due root := by
  obtain ⟨_, _, hc, _⟩ := L.root_unmet hs
  rw [L.queue, path_of_root hs, History.waiting, History.due, History.captures_append_fates]
  refine List.filter_congr fun w _ => decide_eq_decide.mpr ?_
  simp only [History.Waits, History.met_append, History.met_fates, if_true, reduceCtorEq, if_false,
    List.append_nil, List.mem_append, List.mem_singleton, List.getLast?_singleton, ne_eq,
    List.cons_ne_nil, not_false_iff, true_and]
  constructor
  · rintro ⟨hlast, hids⟩
    refine ⟨hlast, fun id hid => ⟨(hids id hid).1, fun hmem => ?_⟩⟩
    exact hmem.resolve_left (hids id hid).2
  · rintro ⟨hlast, hids⟩
    refine ⟨hlast, fun id hid => ⟨(hids id hid).1, fun hmem => ?_⟩⟩
    rw [(hids id hid).2 (Or.inl hmem)] at hmem
    exact hc hmem

/-- A write in the queue has lost its rows exactly when a transaction around it was left. -/
theorem undoes_iff (L : Ledger s h) (hs : s.outline = [(root, .active)]) {w : PendingWrite}
    (hw : w ∈ s.queue) : h.Undoes w ↔ ∃ id ∈ w.path, id ∈ h.met .left := by
  constructor
  · rintro ⟨id, hid, hmet⟩
    refine ⟨id, hid, ?_⟩
    have hwaits := hw
    rw [L.queue, History.mem_waiting] at hwaits
    rcases hmet with hundone | hbroken
    · exact absurd hundone (hwaits.2.2.2 id hid).1
    · rcases L.passed w hw id hid with hopen | hreleased | hleft
      · rw [path_of_root hs] at hopen
        rw [List.mem_singleton.mp hopen] at hbroken
        exact absurd hbroken (L.root_unmet hs).1
      · exact absurd hbroken (L.released id hreleased).1
      · exact hleft
  · rintro ⟨id, hid, hleft⟩
    exact ⟨id, hid, Or.inr (L.left id hleft)⟩

/-- When no transaction was left, what is due are the changes whose savepoints were all
released. -/
theorem queue_eq_survivors (L : Ledger s h) (hs : s.outline = [(root, .active)])
    (hleft : h.met .left = []) :
    s.queue = (h ++ History.fates .committed [root]).survivors root := by
  obtain ⟨hb, hu, hc, _⟩ := L.root_unmet hs
  have hflushes : (h ++ History.fates .committed [root]).flushes = h.flushes := by
    rw [History.flushes_append]
    exact List.append_nil _
  have hreleased : (h ++ History.fates .committed [root]).met .released = h.met .released := by
    rw [History.met_append_fates h (by decide)]
  rw [History.survivors, hflushes, hreleased]
  rw [← History.filter_captures h fun ws hws w hw => ?_]
  · rw [L.queue, History.waiting]
    refine List.filter_congr fun w hw => decide_eq_decide.mpr ?_
    constructor
    · intro hwaits
      have hqueued : w ∈ s.queue := by
        rw [L.queue]
        exact History.mem_waiting.mpr ⟨hw, hwaits⟩
      obtain ⟨_, hlast, _⟩ := hwaits
      rw [path_of_root hs] at hlast
      refine ⟨hlast, fun id hid => ?_⟩
      rcases L.passed w hqueued id hid with hopen | hreleased | hgone
      · rw [path_of_root hs] at hopen
        exact Or.inl (List.mem_singleton.mp hopen)
      · exact Or.inr hreleased
      · rw [hleft] at hgone
        cases hgone
    · rintro ⟨hlast, hids⟩
      rw [path_of_root hs]
      refine ⟨List.cons_ne_nil root [], hlast, fun id hid => ?_⟩
      rcases hids id hid with rfl | hid
      · exact ⟨hu, hc⟩
      · exact (L.released id hid).2
  · -- what a failed flush captured hangs on a broken transaction, and that was not released
    refine decide_eq_false ?_
    rintro ⟨_, hids⟩
    obtain ⟨id, hid, hbroken⟩ := L.torn ws hws w hw
    rcases hids id hid with rfl | hid
    · exact hb hbroken
    · exact (L.released id hid).1 hbroken

end Ledger

namespace Journal

variable {catalog : Catalog} {backend : Backend}

/-- The document writes that the backend received. -/
def writes (j : Journal) : List Call := j.running.session.writes

/-- What holds of a run: its ledger, and where its changes come from. -/
structure Sound (catalog : Catalog) (backend : Backend) (j : Journal) : Prop where
  ledger : Ledger j.running.session j.history
  flushes : ∀ ws, .flushed ws ∈ j.history → Surroundings.IsFlush catalog backend ws

/-- An instruction that makes nothing last.  A commit does so only when it fails before it comes
to its end. -/
structure Passes (catalog : Catalog) (backend : Backend) (i : Instruction) (j j' : Journal)
    (outcome : Except Failure (Option Page)) (heard : List Call) : Prop where
  writes : j'.writes = j.writes ++ heard
  unheard : j.running.scopes.enabled = false ∨ catalog.OnCommit → heard = []
  commits : j'.history.met .committed = j.history.met .committed
  fails : i = .session .commit → ∃ e s,
    (j.running.surroundings catalog backend).prepare j.running.session = (.error e, s) ∧
      outcome = .error e

/-- An instruction that makes the rows of a root transaction last.  What listeners hear of its
flush comes first, then it sends writes that are due. -/
structure Delivers (catalog : Catalog) (backend : Backend) (j j' : Journal)
    (outcome : Except Failure (Option Page)) (root : Nat) (heard : List Call)
    (sent : List PendingWrite) : Prop where
  calls : j'.writes = j.writes ++ heard ++ sent.map PendingWrite.call
  unheard : j.running.scopes.enabled = false ∨ catalog.OnCommit → heard = []
  opened : j.running.session.begin.path.getLast? = some root
  commits : j'.history.met .committed = j.history.met .committed ++ [root]
  first : root ∉ j.history.met .committed
  queue : j'.running.session.queue = []
  part : sent <+: j'.history.due root
  disabled : j.running.scopes.enabled = false → sent = []
  all : j.running.scopes.enabled = true → outcome = .ok none → sent = j'.history.due root
  accepted : j.running.scopes.enabled = true →
    (∀ w ∈ j'.history.due root, w.Accepted backend) → outcome = .ok none
  prepared : ∃ s,
    (j.running.surroundings catalog backend).prepare j.running.session = (.ok (), s) ∧
      s.queue = j'.history.due root ∧
      (∃ ws, (j.running.surroundings catalog backend).flushWrites j.running.session = .ok ws ∧
        s.queue = j.running.session.queue ++ ws) ∧
      j'.running.session.sent = s.sent ++ sent.map PendingWrite.call ∧
      (j.running.scopes.enabled = true →
        (∀ i e, PendingWrite.FailsAt backend s.sent s.queue i e →
          outcome = .error e ∧ sent = s.queue.take (i + 1)) ∧
        ∀ e, outcome = .error e → ∃ i, PendingWrite.FailsAt backend s.sent s.queue i e)
  undone : ∀ w ∈ j'.history.due root,
    j'.history.Undoes w ↔ ∃ id ∈ w.path, id ∈ j'.history.met .left
  survivors : j'.history.met .left = [] → j'.history.due root = j'.history.survivors root

/-- Every flush of the history is still one after commands that keep the ledger. -/
theorem Sound.flushes_of_kept {j : Journal} (hj : j.Sound catalog backend) {t : Session}
    {events : History}
    (hkept : Kept (j.running.surroundings catalog backend) j.running.session t j.history events)
    {ws : List PendingWrite} (hws : .flushed ws ∈ j.history ++ events) :
    Surroundings.IsFlush catalog backend ws := by
  rcases List.mem_append.mp hws with hold | hnew
  · exact hj.flushes ws hold
  · exact hkept.flushes ws hnew

/-- A command that keeps the ledger, as an instruction. -/
theorem passes_of_kept {j : Journal} (hj : j.Sound catalog backend) (command : Command)
    (hkept : Kept (j.running.surroundings catalog backend) j.running.session
      (j.step catalog backend (.session command)).2.running.session j.history
      (j.running.events catalog backend (.session command)))
    (hfails : command = .commit → ∃ e s,
      (j.running.surroundings catalog backend).prepare j.running.session = (.error e, s) ∧
        (j.step catalog backend (.session command)).1 = .error e) :
    (j.step catalog backend (.session command)).2.Sound catalog backend ∧
      ∃ heard, Passes catalog backend (.session command) j
        (j.step catalog backend (.session command)).2
        (j.step catalog backend (.session command)).1 heard := by
  obtain ⟨heard, hheard⟩ := hkept.heard
  have hcommits : (j.history ++ j.running.events catalog backend (.session command)).met
      .committed = j.history.met .committed := by
    rw [History.met_append, hkept.commits, List.append_nil]
  exact ⟨⟨hkept.ledger, fun _ => hj.flushes_of_kept hkept⟩, heard, hheard.writes, hheard.none,
    hcommits, fun h => hfails (Instruction.session.inj h)⟩

section Settled

variable {j : Journal} {u t : Session} {events : History} {outcome : Except Failure Unit}
  {root : Nat} {sent : List PendingWrite}

/-- A commit that came to its end leaves a sound journal. -/
theorem sound_of_settled (hj : j.Sound catalog backend)
    (hkept : Kept (j.running.surroundings catalog backend) j.running.session u j.history events)
    (hroot : u.outline = [(root, .active)])
    (hsettled : (j.running.surroundings catalog backend).Settled root u t outcome sent) :
    Sound catalog backend ⟨{ j.running with session := t },
      j.history ++ (events ++ History.fates .committed [root])⟩ := by
  have hended : t.outline = [] ∨ t.outline = [(root, .committed)] := by
    have houtline := hsettled.outline
    cases outcome with
    | ok u => exact Or.inl houtline
    | error e => exact Or.inr houtline
  rw [← List.append_assoc]
  refine ⟨?ledger, fun ws hws => ?flushes⟩
  case ledger =>
    exact hkept.ledger.commit hroot hended hsettled.created hsettled.savepoints
      (hsettled.sound hkept.ledger.sound) hsettled.queue
  case flushes =>
    rcases List.mem_append.mp hws with hws | hws
    · exact hj.flushes_of_kept hkept hws
    · exact absurd hws (History.flushed_notMem_fates ws .committed [root])

/-- A commit that came to its end, as an instruction. -/
theorem delivers_of_settled
    (hprepare : (j.running.surroundings catalog backend).prepare j.running.session = (.ok (), u))
    (hchanges : ∃ ws, (j.running.surroundings catalog backend).flushWrites j.running.session =
      .ok ws ∧ u.queue = j.running.session.queue ++ ws)
    (hbegun : j.running.session.begin.path.getLast? = some root)
    (hkept : Kept (j.running.surroundings catalog backend) j.running.session u j.history events)
    (hroot : u.outline = [(root, .active)])
    (hsettled : (j.running.surroundings catalog backend).Settled root u t outcome sent) :
    ∃ heard, j.Delivers catalog backend ⟨{ j.running with session := t },
      j.history ++ (events ++ History.fates .committed [root])⟩
      (outcome.map fun _ => none) root heard sent := by
  rw [← List.append_assoc]
  have L := hkept.ledger
  have hdue := L.queue_eq_due hroot
  have hsame (f : Fate) (hf : f ≠ .committed) :
      ((j.history ++ events) ++ History.fates .committed [root]).met f =
        (j.history ++ events).met f :=
    History.met_append_fates _ hf.symm [root]
  obtain ⟨heard, hheard⟩ := hkept.heard
  have hwrites : u.writes = j.writes ++ heard := hheard.writes
  have hbefore : (j.history ++ events).met .committed = j.history.met .committed := by
    rw [History.met_append, hkept.commits, List.append_nil]
  refine ⟨heard, { calls := ?calls, unheard := hheard.none, opened := hbegun,
                   commits := ?commits, first := ?first, queue := hsettled.queue, part := ?part,
                   disabled := hsettled.disabled, all := ?all, accepted := ?accepted,
                   prepared := ⟨u, hprepare, hdue, hchanges, hsettled.calls, ?failing⟩,
                   undone := ?undone, survivors := ?survivors }⟩
  case calls =>
    rw [← hwrites]
    exact hsettled.writes
  case commits => rw [History.met_append_fates_self, hbefore]
  case first =>
    rw [← hbefore]
    exact (L.root_unmet hroot).2.2.1
  case part =>
    rw [← hdue]
    exact hsettled.part
  case all =>
    intro henabled hok
    rw [← hdue]
    refine hsettled.enabled henabled ?_
    cases outcome with
    | ok u => rfl
    | error e => cases hok
  case accepted =>
    intro _ haccepted
    rw [← hdue] at haccepted
    rw [hsettled.accepted haccepted]
    rfl
  case failing =>
    intro henabled
    refine ⟨fun i e hfails => ?_, fun e herror => hsettled.fails henabled e ?_⟩
    · obtain ⟨houtcome, hsent⟩ := hsettled.failing henabled i e hfails
      exact ⟨by rw [houtcome]; rfl, hsent⟩
    · cases outcome with
      | ok u => cases herror
      | error e' => rw [Except.error.inj herror]
  case undone =>
    intro w hw
    rw [← hdue] at hw
    have hiff := L.undoes_iff hroot hw
    rw [History.Undoes] at hiff ⊢
    rw [hsame .undone (by decide), hsame .broken (by decide), hsame .left (by decide)]
    exact hiff
  case survivors =>
    intro hleft
    rw [hsame .left (by decide)] at hleft
    rw [← hdue]
    exact L.queue_eq_survivors hroot hleft

end Settled

theorem commit_sends {j : Journal} (hj : j.Sound catalog backend) :
    (j.step catalog backend (.session .commit)).2.Sound catalog backend ∧
      ((∃ heard, Passes catalog backend (.session .commit) j
          (j.step catalog backend (.session .commit)).2
          (j.step catalog backend (.session .commit)).1 heard) ∨
        ∃ root heard sent, j.Delivers catalog backend
          (j.step catalog backend (.session .commit)).2
          (j.step catalog backend (.session .commit)).1 root heard sent) := by
  have hstep {r : Except Failure Unit} {t : Session}
      (hcommit : (j.running.surroundings catalog backend).commit j.running.session = (r, t)) :
      j.step catalog backend (.session .commit) = (r.map fun _ => none,
        ⟨{ j.running with session := t },
          j.history ++ (j.running.surroundings catalog backend).events j.running.session
            .commit⟩) := by
    rw [step, Running.step, Surroundings.perform, Exec.bind_pure_apply, hcommit]
    rfl
  rcases Surroundings.commit_cases (c := j.running.surroundings catalog backend) hj.ledger with
    ⟨e, t, hprepare, hcommit, hkept⟩ |
    ⟨u, root, events, outcome, t, sent, hprepare, hbegun, hroot, hchanges, hkept, hsettled,
      hcommit, hevents⟩
  · have hstep := hstep hcommit
    have herror : (j.step catalog backend (.session .commit)).1 = .error e := by
      rw [hstep]
      rfl
    obtain ⟨hsound, hpasses⟩ := passes_of_kept hj .commit (by
      rw [hstep]
      exact hkept) fun _ => ⟨e, t, hprepare, herror⟩
    exact ⟨hsound, Or.inl hpasses⟩
  · obtain ⟨heard, hdelivers⟩ :=
      delivers_of_settled hprepare hchanges hbegun hkept hroot hsettled
    rw [hstep hcommit, hevents]
    exact ⟨sound_of_settled hj hkept hroot hsettled, Or.inr ⟨root, heard, sent, hdelivers⟩⟩

/-- What one instruction does after a run. -/
theorem step_sends {j : Journal} (hj : j.Sound catalog backend) (i : Instruction) :
    (j.step catalog backend i).2.Sound catalog backend ∧
      ((∃ heard, Passes catalog backend i j (j.step catalog backend i).2
          (j.step catalog backend i).1 heard) ∨
        i = .session .commit ∧ ∃ root heard sent, j.Delivers catalog backend
          (j.step catalog backend i).2 (j.step catalog backend i).1 root heard sent) := by
  have hswitch (scopes : Scopes) (hi : i ≠ .session .commit)
      (hstep : j.step catalog backend i =
        (.ok none, ⟨{ j.running with scopes }, j.history ++ []⟩)) :
      (j.step catalog backend i).2.Sound catalog backend ∧
        ∃ heard, Passes catalog backend i j (j.step catalog backend i).2
          (j.step catalog backend i).1 heard := by
    rw [hstep, List.append_nil]
    exact ⟨⟨hj.ledger, hj.flushes⟩, [], (List.append_nil _).symm, fun _ => rfl, rfl,
      fun h => absurd h hi⟩
  cases i with
  | setStanding enabled =>
      exact (hswitch (j.running.scopes.setStanding enabled) nofun rfl).imp_right Or.inl
  | enter name enabled =>
      exact (hswitch (j.running.scopes.enter name enabled) nofun rfl).imp_right Or.inl
  | leave name => exact (hswitch (j.running.scopes.leave name) nofun rfl).imp_right Or.inl
  | session command =>
      by_cases hcommand : command = .commit
      · subst hcommand
        obtain ⟨hsound, hstep⟩ := commit_sends hj
        exact ⟨hsound, hstep.imp_right fun h => ⟨rfl, h⟩⟩
      · have hkept := (j.running.surroundings catalog backend).kept_perform hj.ledger hcommand
        obtain ⟨hsound, hpasses⟩ := passes_of_kept hj command hkept fun h => absurd h hcommand
        exact ⟨hsound, Or.inl hpasses⟩

theorem sound_initial : Journal.initial.Sound catalog backend :=
  ⟨Ledger.empty, fun _ h => absurd h List.not_mem_nil⟩

/-- What one instruction keeps, every run keeps. -/
theorem Sound.run {j : Journal} (hj : j.Sound catalog backend) (program : List Instruction) :
    (j.run catalog backend program).Sound catalog backend := by
  induction program generalizing j with
  | nil => exact hj
  | cons i program ih => exact ih (step_sends hj i).1

end Journal

end Typeahead
