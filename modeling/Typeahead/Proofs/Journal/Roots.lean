import Typeahead.Proofs.Journal.Steps

/-!
# Writes and their root transaction

A write that waits belongs to the root transaction in progress.  So nothing waits while there
is none, and a commit sends the writes of the root transaction that it commits and of no other
one.
-/

namespace Typeahead

namespace History

theorem root_of_mem_due {h : History} {root : Nat} {w : PendingWrite} (hw : w ∈ h.due root) :
    w.path.getLast? = some root :=
  (of_decide_eq_true (List.mem_filter.mp hw).2).1

/-- A write is due in one root transaction only. -/
theorem notMem_due {h k : History} {root other : Nat} (hne : root ≠ other) {w : PendingWrite}
    (hw : w ∈ h.due root) : w ∉ k.due other := by
  intro hmem
  have hsame := (root_of_mem_due hw).symm.trans (root_of_mem_due hmem)
  exact hne (Option.some.inj hsame)

end History

namespace Ledger

variable {s : Session} {h : History}

theorem root_of_mem_queue (L : Ledger s h) {w : PendingWrite} (hw : w ∈ s.queue) :
    w.path.getLast? = s.path.getLast? := by
  rw [L.queue] at hw
  exact (History.mem_waiting.mp hw).2.2.1

theorem queue_eq_nil (L : Ledger s h) (hs : s.inTransaction = false) : s.queue = [] := by
  have hstack : s.stack = [] := by simpa [Session.inTransaction] using hs
  rw [L.queue, Session.path, hstack, List.map_nil, History.waiting_nil]

end Ledger

namespace Journal

variable {catalog : Catalog} {backend : Backend} {j j' : Journal}
  {outcome : Except Failure (Option Page)} {root : Nat} {heard : List Call}
  {sent : List PendingWrite}

/-- A committed root transaction stays committed. -/
theorem Sound.committed_run (hj : j.Sound catalog backend) (program : List Instruction) {id : Nat}
    (hid : id ∈ j.history.met .committed) :
    id ∈ (j.run catalog backend program).history.met .committed := by
  induction program generalizing j with
  | nil => exact hid
  | cons i program ih =>
      obtain ⟨hj', hsends⟩ := step_sends hj i
      refine ih hj' ?_
      rcases hsends with ⟨_, hpasses⟩ | ⟨_, _, _, _, hdelivers⟩
      · rwa [hpasses.commits]
      · rw [hdelivers.commits]
        exact List.mem_append_left _ hid

theorem Delivers.committed (h : j.Delivers catalog backend j' outcome root heard sent) :
    root ∈ j'.history.met .committed := by
  rw [h.commits]
  exact List.mem_append_right _ (List.mem_singleton_self root)

/-- Whatever comes later, none of several writes is sent: an instruction makes nothing last, or it
is a commit that delivers other writes. -/
def NeverSends (catalog : Catalog) (backend : Backend) (j : Journal) (ws : List PendingWrite) :
    Prop :=
  ∀ (later : List Instruction) (i : Instruction),
    let k := j.run catalog backend later
    let k' := (k.step catalog backend i).2
    let outcome := (k.step catalog backend i).1
    (∃ heard, Passes catalog backend i k k' outcome heard) ∨
      i = .session .commit ∧ ∃ root heard sent,
        k.Delivers catalog backend k' outcome root heard sent ∧ ∀ w ∈ sent, w ∉ ws

/-- What was due in a committed root transaction is never sent later. -/
theorem Sound.neverSends (hj : j.Sound catalog backend) (hroot : root ∈ j.history.met .committed)
    (h : History) : j.NeverSends catalog backend (h.due root) := by
  intro later i
  rcases (step_sends (hj.run later) i).2 with hpasses | ⟨hi, other, heard, sent, hdelivers⟩
  · exact Or.inl hpasses
  · refine Or.inr ⟨hi, other, heard, sent, hdelivers, fun w hw => ?_⟩
    have hne : other ≠ root := fun heq => hdelivers.first (heq ▸ hj.committed_run later hroot)
    exact History.notMem_due hne (hdelivers.part.subset hw)

/-- After any run, nothing waits unless a root transaction is in progress, and what waits hangs
on that root transaction through the transactions around it.  The next instruction sends waiting
writes only if it is a commit, and only writes of the root transaction that it commits: the one
in progress, or one that it opens itself.  Other document writes come from listeners. -/
theorem queue_within_root (catalog : Catalog) (backend : Backend) (program : List Instruction)
    (i : Instruction) :
    let s := (Running.initial.run catalog backend program).session
    let j := Journal.initial.run catalog backend program
    let j' := (j.step catalog backend i).2
    j.running = Running.initial.run catalog backend program ∧
      j.running.step catalog backend i = ((j.step catalog backend i).1, j'.running) ∧
      (s.inTransaction = false → s.queue = []) ∧
      (∀ root, s.path.getLast? = some root → ∀ w ∈ s.queue, w.path.getLast? = some root) ∧
      ∃ heard sent, j'.writes = j.writes ++ heard ++ sent.map PendingWrite.call ∧
        (catalog.OnCommit → heard = []) ∧
        (sent ≠ [] → i = .session .commit ∧ ∃ root, s.begin.path.getLast? = some root ∧
          sent <+: j'.history.due root ∧ ∀ w ∈ sent, w.path.getLast? = some root) := by
  intro s j j'
  have hj : j.Sound catalog backend := sound_initial.run program
  have hrunning : j.running = Running.initial.run catalog backend program :=
    run_running catalog backend program .initial
  have hs : s = j.running.session := congrArg Running.session hrunning.symm
  rw [hs]
  refine ⟨hrunning, rfl, hj.ledger.queue_eq_nil, fun root hroot w hw => ?_, ?_⟩
  · rw [hj.ledger.root_of_mem_queue hw, hroot]
  · rcases (step_sends hj i).2 with ⟨heard, hpasses⟩ | ⟨hi, root, heard, sent, hdelivers⟩
    · refine ⟨heard, [], ?_, fun h => hpasses.unheard (Or.inr h), fun h => absurd rfl h⟩
      rw [hpasses.writes, List.map_nil, List.append_nil]
    · refine ⟨heard, sent, hdelivers.calls, fun h => hdelivers.unheard (Or.inr h), fun _ => ?_⟩
      refine ⟨hi, root, hdelivers.opened, hdelivers.part, fun w hw => ?_⟩
      exact History.root_of_mem_due (hdelivers.part.subset hw)

end Journal

end Typeahead
