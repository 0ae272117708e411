import Typeahead.Proofs.Mirror.Concluding

/-!
# Commits of a mirrored session

A flush keeps rows and documents together as long as it does not give a new object the id of
a removed one, and a commit sends what the flushes left in the queue.
-/

namespace Typeahead

namespace Session

variable {name : String} {t : Table} {x : Searchable} {s w : Session}

/-- A session of one class whose rows and documents go together.  Only a root transaction is
open in it, if any. -/
structure Faithful (name : String) (t : Table) (x : Searchable) (s : Session) : Prop where
  regular : s.Regular name t
  shallow : s.stack.length ≤ 1
  mirrored : s.IsMirrored t x

/-- Only objects, rows and marks count. -/
theorem Regular.of_eq (h : s.Regular name t) (hobjects : w.objects = s.objects)
    (hrows : w.rows = s.rows) (hfresh : w.fresh = s.fresh) (hmarked : w.marked = s.marked) :
    w.Regular name t := by
  have hobject := object?_congr hobjects
  have hdoomed : w.doomed = s.doomed := by
    rw [doomed, doomed, objectsOf, objectsOf, hmarked]
    exact List.filterMap_congr fun id _ => hobject id
  refine { sound := ?sound, rows := by rw [hrows]; exact h.rows,
           objects := by rw [hobjects]; exact h.objects, fresh := by rw [hfresh]; exact h.fresh,
           known := by rw [hfresh, hmarked, hobjects]; exact h.known,
           marked := by rw [hdoomed]; exact h.marked,
           distinct := by rw [hobjects]; exact h.distinct, lives := ?lives }
  case sound =>
    rw [Sound, hfresh]
    exact h.sound.of_objects_eq hobjects
  case lives =>
    intro o ho
    rw [hrows]
    refine h.lives o ?_
    rwa [IsLive, hobjects, hmarked] at ho

theorem Regular.begin (h : s.Regular name t) : s.begin.Regular name t :=
  h.of_eq s.begin_objects s.begin_rows s.begin_fresh s.begin_marked

theorem pop_eq (h : s.stack.length ≤ 1) (hqueue : s.queue = []) :
    s.pop = { s with stack := [] } := by
  obtain ⟨objects, names, fresh, marked, stack, savepoints, created, rows, queue, sent⟩ := s
  obtain rfl : queue = [] := hqueue
  rcases stack with _ | ⟨tr, _ | ⟨outer, rest⟩⟩
  · rfl
  · rfl
  · simp at h

theorem doomed_begin (s : Session) : s.begin.doomed = s.doomed := by
  rw [doomed, doomed, objectsOf, objectsOf, begin_marked]
  exact List.filterMap_congr fun id _ => object?_begin s id

theorem length_begin (h : s.stack.length ≤ 1) : s.begin.stack.length = 1 := by
  unfold begin inTransaction
  cases hstack : s.stack with
  | nil => simp [push, hstack]
  | cons tr rest =>
      rw [hstack, List.length_cons] at h
      simp only [List.isEmpty_cons, Bool.not_false, if_true, hstack, List.length_cons]
      omega

theorem documentUnder_congr (hsent : w.sent = s.sent) (hqueue : w.queue = s.queue) (k : Value) :
    w.documentUnder k = s.documentUnder k := by
  rw [documentUnder, documentUnder, hsent, hqueue]

/-- What is said of documents does not depend on the objects. -/
theorem Faithful.of_regular (h : s.Faithful name t x) (hw : w.Regular name t)
    (hrows : w.rows = s.rows) (hqueue : w.queue = s.queue) (hsent : w.sent = s.sent)
    (hshallow : w.stack.length ≤ 1) : w.Faithful name t x := by
  refine ⟨hw, hshallow, fun k => ?_⟩
  rw [hrows, documentUnder_congr hsent hqueue]
  exact h.mirrored k

theorem Faithful.begin (h : s.Faithful name t x) : s.begin.Faithful name t x :=
  h.of_regular h.regular.begin s.begin_rows s.begin_queue s.begin_sent (length_begin h.shallow).le

/-- What a flush that succeeds makes of the rows and the documents. -/
structure Replays (name : String) (t : Table) (x : Searchable) (s w : Session) : Prop where
  tabled : Row.Tabled t.name w.rows
  gone : ∀ d ∈ s.doomed, ∀ k, d.label.same k = true → w.documentUnder k = none
  matched : ∀ k, (∀ d ∈ s.doomed, d.label.same k = false) →
    Option.Rel (Row.HasDocument x) (Row.find? w.rows t.name k) (w.documentUnder k)
  removed : ¬ s.Reuses w → ∀ d ∈ s.doomed, ∀ k, d.label.same k = true →
    Row.find? w.rows t.name k = none
  regular : ¬ s.Reuses w → w.Regular name t
  shallow : w.stack.length ≤ 1

/-- What is there before a flush does not depend on whether a transaction is open. -/
theorem Replays.of_begin (h : Replays name t x s.begin w) : Replays name t x s w := by
  obtain ⟨htabled, hgone, hmatched, hremoved, hregular, hshallow⟩ := h
  rw [doomed_begin] at hgone hmatched hremoved
  rw [Reuses, begin_fresh, begin_marked, ← Reuses] at hremoved hregular
  exact ⟨htabled, hgone, hmatched, hremoved, hregular, hshallow⟩

/-- What is said of a flush does not depend on the transactions that are open after it. -/
theorem Replays.of_eq {v : Session} (h : Replays name t x s v) (hobjects : w.objects = v.objects)
    (hrows : w.rows = v.rows) (hfresh : w.fresh = v.fresh) (hmarked : w.marked = v.marked)
    (hdocument : ∀ k, w.documentUnder k = v.documentUnder k) (hshallow : w.stack.length ≤ 1) :
    Replays name t x s w := by
  have hof (ids : List Nat) : w.objectsOf ids = v.objectsOf ids :=
    List.filterMap_congr fun id _ => object?_congr hobjects id
  have hreuses : s.Reuses w ↔ s.Reuses v := by rw [Reuses, Reuses, hof, hof]
  refine { tabled := by rw [hrows]; exact h.tabled, gone := ?gone, matched := ?matched,
           removed := ?removed, regular := ?regular, shallow := hshallow }
  case gone =>
    intro d hd k hk
    rw [hdocument]
    exact h.gone d hd k hk
  case matched =>
    intro k hk
    rw [hdocument, hrows]
    exact h.matched k hk
  case removed =>
    rw [hrows, hreuses]
    exact h.removed
  case regular =>
    rw [hreuses]
    exact fun hfree => (h.regular hfree).of_eq hobjects hrows hfresh hmarked

/-- A flush that reuses no id keeps rows and documents together. -/
theorem Replays.mirrored (h : Replays name t x s w) (hreuses : ¬ s.Reuses w) :
    w.IsMirrored t x := by
  intro k
  by_cases hk : ∃ d ∈ s.doomed, d.label.same k = true
  · obtain ⟨d, hd, hsame⟩ := hk
    rw [h.removed hreuses d hd k hsame, h.gone d hd k hsame]
    exact .none
  · refine h.matched k fun d hd => ?_
    rw [Bool.eq_false_iff]
    exact fun hsame => hk ⟨d, hd, hsame⟩

end Session

namespace Surroundings

open Session

variable {c : Surroundings} {name : String} {t : Table} {x : Searchable} {s u v w : Session}

theorem Queues.replays (h : Queues c t s u v) (hc : c.Replicates name t x)
    (hfaithful : s.Faithful name t x) : Replays name t x s (c.conclude v) := by
  have hs := hfaithful.regular
  obtain ⟨_, _, hrows, _⟩ := h.frame hs
  have hsettled := settles_conclude c v
  have hdocument := documentUnder_congr hsettled.sent hsettled.queue
  have hrows : (c.conclude v).rows = u.rows := (rows_conclude c v).trans hrows
  refine { tabled := ?tabled, gone := ?gone, matched := ?matched, removed := ?removed,
           regular := h.regular_conclude hc hs, shallow := ?shallow }
  case tabled =>
    rw [hrows]
    exact h.stores.tabled
  case gone =>
    intro d hd k hk
    rw [hdocument]
    exact h.documentUnder_doomed hc hs hd hk
  case matched =>
    intro k hk
    rw [hdocument, hrows]
    exact h.rel_documentUnder hc hs hfaithful.mirrored hk
  case removed =>
    intro hreuses d hd k hk
    rw [hrows]
    exact h.find?_doomed hc hs hreuses hd hk
  case shallow =>
    obtain ⟨hreads, _⟩ := c.collect_queued h.collect (h.sound hs) h.stack_ne_nil
    rw [← length_outline, hsettled.outline, hreads.stays.opens.outline_eq h.stack_ne_nil,
      h.works.opens.outline_eq h.stack, length_outline]
    exact hfaithful.shallow

/-- The work of a flush that succeeds. -/
theorem flushWork_ok (hc : c.Replicates name t x) (hs : s.Regular name t) (hstack : s.stack ≠ [])
    (h : c.flushWork s = (.ok (), w)) : ∃ u v, Queues c t s u v ∧ w = c.conclude v := by
  unfold flushWork at h
  rw [Exec.bind_apply, Exec.get_apply] at h
  dsimp only at h
  obtain ⟨_, v₁, hsave, hrest⟩ := Exec.bind_eq_ok h
  obtain ⟨_, u, hremove, hrest⟩ := Exec.bind_eq_ok hrest
  obtain ⟨_, v, hcollect, hconclude⟩ := Exec.bind_eq_ok hrest
  rw [forM_plans_apply hc hs fun _ => rfl] at hsave
  rw [forM_plans_apply hc hs fun _ => rfl] at hremove
  have hnew : ∀ id ∈ (planOf s).inserted, id ∈ s.fresh := by
    intro id hid
    obtain ⟨o, ho, rfl⟩ := List.mem_map.mp hid
    exact hs.fresh_of_newcomers ho
  have hsaves := c.follows_save s.fresh hnew s
  have hremoves := c.follows_remove s.fresh (planOf s) v₁
  rw [hsave] at hsaves
  rw [hremove] at hremoves
  exact ⟨u, v, ⟨stores_spec hc hs hsave hremove, hsaves.trans hremoves, hcollect, hstack⟩,
    (Prod.mk.inj hconclude).2.symm⟩

/-- A flush with nothing to do leaves everything in its place. -/
theorem replays_of_isClean (hs : s.Faithful name t x) (hclean : s.isClean = true) :
    Replays name t x s s := by
  simp only [isClean, Bool.and_eq_true, List.isEmpty_iff] at hclean
  have hnone : s.doomed = [] := by rw [doomed, objectsOf, hclean.1.2]; rfl
  refine { tabled := hs.regular.rows, gone := ?gone, matched := fun k _ => hs.mirrored k,
           removed := ?removed, regular := fun _ => hs.regular, shallow := hs.shallow }
  case gone =>
    rw [hnone]
    exact fun d hd => absurd hd List.not_mem_nil
  case removed =>
    rw [hnone]
    exact fun _ d hd => absurd hd List.not_mem_nil

theorem flush_ok (hc : c.Replicates name t x) (hs : s.Faithful name t x)
    (h : c.flush s = (.ok (), w)) : Replays name t x s w := by
  rw [flush_eq, Exec.bind_apply, Exec.get_apply] at h
  dsimp only at h
  split at h
  · next hclean =>
    obtain ⟨_, rfl⟩ := Prod.mk.inj h
    exact replays_of_isClean hs hclean
  · obtain ⟨_, v₀, hbegin, hrest⟩ := Exec.bind_eq_ok h
    obtain ⟨_, v₁, hactive, hattempt⟩ := Exec.bind_eq_ok hrest
    obtain ⟨_, rfl⟩ := Prod.mk.inj hbegin
    obtain ⟨r, hr, _⟩ := Exec.requireActive_apply s.begin
    obtain ⟨_, rfl⟩ := Prod.mk.inj (hr.symm.trans hactive)
    refine Replays.of_begin ?_
    rw [attempt, Exec.tryCatch_apply] at hattempt
    rcases hwork : c.flushWork s.begin with ⟨q, v⟩
    rw [hwork] at hattempt
    cases q with
    | error e => cases hattempt
    | ok q =>
        obtain ⟨_, rfl⟩ := Prod.mk.inj hattempt
        obtain ⟨u, v', hqueues, rfl⟩ :=
          flushWork_ok hc hs.begin.regular s.begin_stack_ne_nil hwork
        exact hqueues.replays hc hs.begin

/-- Without savepoints, a commit that succeeds flushes once, and then it sends what the flush has
left in the queue. -/
theorem commit_of_shallow (henabled : c.enabled = true) (hs : s.stack.length ≤ 1)
    (h : c.commit s = (.ok (), w)) : ∃ v, c.flush s.begin = (.ok (), v) ∧
      (v.stack.length ≤ 1 → w = { v with
        stack := []
        queue := []
        sent := v.sent ++ v.queue.map PendingWrite.call }) := by
  have hdrop : s.begin.stack.dropLast = [] := by
    rw [← List.length_eq_zero_iff, List.length_dropLast, length_begin hs]
  obtain ⟨_, v, hprepare, hsettle⟩ := Exec.bind_eq_ok h
  unfold prepare at hprepare
  rw [Exec.bind_apply, Exec.modify_apply] at hprepare
  dsimp only at hprepare
  rw [Exec.bind_apply, Exec.get_apply] at hprepare
  dsimp only at hprepare
  rw [hdrop] at hprepare
  obtain ⟨_, v₁, hnone, hproceed⟩ := Exec.bind_eq_ok hprepare
  obtain ⟨_, rfl⟩ := Prod.mk.inj hnone
  refine ⟨v, flush_of_proceed hproceed, fun hshallow => ?_⟩
  obtain ⟨_, v₂, hcommitted, hrest⟩ := Exec.bind_eq_ok hsettle
  obtain ⟨_, v₃, hdeliver, hpop⟩ := Exec.bind_eq_ok hrest
  obtain ⟨stack, hstack, hmodify⟩ := v.modifyInnermost_eq fun t => { t with state := .committed }
  rw [Exec.modify_apply, hmodify] at hcommitted
  obtain ⟨_, rfl⟩ := Prod.mk.inj hcommitted
  obtain rfl :=
    deliverAtRoot_ok henabled (inSavepoint_of_length (hstack.le.trans hshallow)) hdeliver
  rw [Exec.modify_apply, pop_eq (hstack.le.trans hshallow) rfl] at hpop
  exact (Prod.mk.inj hpop).2.symm

/-- So it does in a faithful session, where the flush takes rows and documents along. -/
theorem commit_ok (hc : c.Replicates name t x) (hs : s.Faithful name t x)
    (h : c.commit s = (.ok (), w)) : ∃ v, Replays name t x s v ∧
      w = { v with
            stack := []
            queue := []
            sent := v.sent ++ v.queue.map PendingWrite.call } := by
  obtain ⟨v, hflush, hw⟩ := commit_of_shallow hc.enabled hs.shallow h
  have hreplays := flush_ok hc hs.begin hflush
  exact ⟨v, hreplays.of_begin, hw hreplays.shallow⟩

/-- What a commit that succeeds leaves: the documents of the rows, apart from those under the
ids of removed objects. -/
theorem commit_spec (hc : c.Replicates name t x) (hs : s.Faithful name t x)
    (h : c.commit s = (.ok (), w)) :
    Replays name t x s w ∧ ∀ k, Call.documentUnder w.sent k = w.documentUnder k := by
  obtain ⟨v, hreplays, rfl⟩ := commit_ok hc hs h
  refine ⟨hreplays.of_eq rfl rfl rfl rfl (fun k => ?_) (Nat.zero_le 1), fun k => ?_⟩
  · rw [documentUnder, documentUnder, List.map_nil, List.append_nil]
  · rw [documentUnder, List.map_nil, List.append_nil]

end Surroundings

end Typeahead
