import Mathlib.Data.List.TakeDrop
import Typeahead.Proofs.Journal.Commands
import Typeahead.Proofs.Session.Delivery

/-!
# Commits in the ledger

A commit fails while it is prepared, or it settles: the rows of the root transaction are made last,
and the writes that wait are delivered.  The ledger is kept either way.
-/

namespace Typeahead

/-- Nothing waits for a root transaction that is committed: every write that would hangs on it. -/
theorem History.waiting_committed (h : History) (root : Nat) :
    (h ++ fates .committed [root]).waiting [root] = [] := by
  refine List.filter_eq_nil_iff.mpr fun w _ hwaits => ?_
  obtain ⟨_, hlast, hids⟩ := of_decide_eq_true hwaits
  have hmem : root ∈ w.path := List.mem_of_getLast? hlast
  refine (hids root hmem).2 ?_
  rw [met_append_fates_self]
  exact List.mem_append_right _ (List.mem_singleton_self root)

/-- A released transaction has no other fate after a commit, which is that of an open one. -/
theorem Ledger.released_commit {s : Session} {h : History} (L : Ledger s h) {root id : Nat}
    (hroot : root ∈ s.path) (hid : id ∈ h.met .released) :
    id ∉ h.met .broken ∧ id ∉ h.met .undone ∧
      id ∉ (h ++ History.fates .committed [root]).met .committed := by
  obtain ⟨hb, hu, hc⟩ := L.released id hid
  refine ⟨hb, hu, fun hmem => ?_⟩
  rcases History.mem_met_fates.mp hmem with hmem | ⟨_, hmem⟩
  · exact hc hmem
  · rw [List.mem_singleton.mp hmem] at hid
    exact (L.unfinished root hroot).1 hid

/-- The rows of the root transaction are made last. -/
theorem Ledger.commit {s t : Session} {h : History} (L : Ledger s h) {root : Nat}
    (hs : s.outline = [(root, .active)])
    (ht : t.outline = [] ∨ t.outline = [(root, .committed)]) (hcreated : t.created = s.created)
    (hsavepoints : t.savepoints = s.savepoints) (hsound : t.Sound) (hqueue : t.queue = []) :
    Ledger t (h ++ History.fates .committed [root]) := by
  have hspath : s.path = [root] := by rw [Session.path_eq, hs, List.map_singleton]
  have hroot : root ∈ s.path := by rw [hspath]; exact List.mem_singleton_self root
  have hactive : ∀ e ∈ s.outline, e.2 = .active := by
    rw [hs]
    exact fun e he => by rw [List.mem_singleton.mp he]
  obtain ⟨hnotBroken, _⟩ := L.not_met hactive root hroot
  have hcommitted := History.met_append_fates_self h .committed [root]
  have hsame {f : Fate} (hf : .committed ≠ f) :
      (h ++ History.fates .committed [root]).met f = h.met f :=
    History.met_append_fates h hf [root]
  have houtline : ∀ e ∈ t.outline, e = (root, .committed) := by
    intro e he
    rcases ht with ht | ht
    · rw [ht] at he
      cases he
    · rw [ht] at he
      exact List.mem_singleton.mp he
  have hpath : ∀ id ∈ t.path, id = root := by
    intro id hid
    obtain ⟨e, he, rfl⟩ := Ledger.exists_of_mem_path hid
    rw [houtline e he]
  refine { sound := hsound, descending := ?descending, numbered := ?numbered, met := ?met,
           captured := ?captured, outer := ?outer, unfinished := ?unfinished,
           broken := ?broken, committed := ?committed, fallen := ?fallen, left := ?left,
           released := ?released, torn := ?torn, queue := ?queue,
           nested := by rw [hqueue]; exact fun w hw => absurd hw List.not_mem_nil,
           passed := by rw [hqueue]; exact fun w hw => absurd hw List.not_mem_nil,
           named := ?named }
  case descending =>
    rcases ht with ht | ht
    · rw [Session.path_eq, ht]
      exact List.Pairwise.nil
    · rw [Session.path_eq, ht]
      exact List.pairwise_singleton _ _
  case numbered =>
    intro id hid
    rw [hpath id hid, hcreated]
    exact L.numbered root hroot
  case met =>
    intro f id hid
    rw [hcreated]
    rcases History.mem_met_fates.mp hid with hid | ⟨_, hid⟩
    · exact L.met f id hid
    · rw [List.mem_singleton.mp hid]
      exact L.numbered root hroot
  case captured =>
    rw [hcreated, History.captures_append_fates]
    exact L.captured
  case outer =>
    rcases ht with ht | ht
    · rw [ht]
      exact fun e he => absurd he List.not_mem_nil
    · rw [ht]
      exact fun e he => absurd he List.not_mem_nil
  case unfinished =>
    intro id hid
    rw [hpath id hid, hsame (by decide), hsame (by decide), hsame (by decide)]
    exact L.unfinished root hroot
  case broken =>
    intro e he
    rw [houtline e he, hsame (by decide)]
    simpa using hnotBroken
  case committed =>
    intro e he
    rw [houtline e he, hcommitted]
    simp
  case fallen =>
    intro id hid
    rw [hsame (by decide)] at hid
    rw [hsame (by decide), hsame (by decide)]
    rcases L.fallen id hid with hopen | hover
    · rw [hspath] at hopen
      rw [List.mem_singleton.mp hopen] at hid
      exact absurd hid hnotBroken
    · exact Or.inr hover
  case left =>
    rw [hsame (by decide), hsame (by decide)]
    exact L.left
  case released =>
    intro id hid
    rw [hsame (by decide)] at hid
    rw [hsame (f := .broken) (by decide), hsame (f := .undone) (by decide)]
    exact L.released_commit hroot hid
  case torn =>
    intro vs hvs w hw
    rw [hsame (by decide)]
    rcases List.mem_append.mp hvs with hvs | hvs
    · exact L.torn vs hvs w hw
    · exact absurd hvs (History.captured_notMem_fates vs .committed [root])
  case queue =>
    rw [hqueue, Session.path_eq]
    rcases ht with ht | ht
    · rw [ht, List.map_nil, History.waiting_nil]
    · rw [ht, List.map_singleton, History.waiting_committed]
  case named =>
    rw [hcreated, hsavepoints]
    intro e he
    obtain ⟨hlt, hother⟩ := L.named e he
    refine ⟨hlt, fun hlast => hother ?_⟩
    rw [hspath, List.getLast?_singleton, hpath e.2 (List.mem_of_getLast? hlast)]

namespace Surroundings

open Session

variable {c : Surroundings} {s u : Session} {h : History}

/-- A commit that is prepared is left with the root transaction, which is the one in progress or a
new one.  The queue has the changes of its flush besides. -/
theorem outline_of_prepare (hs : s.Sound) (houter : ∀ e ∈ s.outline.tail, e.2 = .active)
    (hprepare : c.prepare s = (.ok (), u)) :
    ∃ root, s.begin.path.getLast? = some root ∧ u.outline = [(root, .active)] ∧
      ∃ ws, c.flushWrites s = .ok ws ∧ u.queue = s.queue ++ ws := by
  have hbegun := (stays_begin s).sound hs
  have hpos := begin_outline_pos s
  rw [c.prepare_apply hs houter] at hprepare
  obtain ⟨hactive, v, hflush, hflushed, hcloses, hqueue⟩ :=
    c.proceed_merge_spec hprepare hbegun (by omega)
  have hne : s.begin.outline ≠ [] := List.length_pos_iff.mp hpos
  have houtline : u.outline = [s.begin.outline.getLast hne] := by
    rw [hcloses.outline, hflushed.outline, List.drop_length_sub_one hne]
  have hstate : (s.begin.outline.getLast hne).2 = .active := by
    refine active_of_isActive ?_ hactive _ (List.getLast_mem hne)
    rcases (opens_begin s).cases with ⟨hsame, _⟩ | ⟨_, hone, _⟩
    · rw [hsame]
      exact houter
    · rw [hone]
      exact fun e he => absurd he List.not_mem_nil
  refine ⟨(s.begin.outline.getLast hne).1, ?_, ?_, c.written s.begin v, ?_, ?_⟩
  · rw [path_eq, List.getLast?_map, List.getLast?_eq_some_getLast hne]
    rfl
  · rw [houtline, ← hstate]
  · rw [← c.flushWrites_begin, c.flushWrites_of_ok hflush]
  · rw [hqueue, hflushed.queue, begin_queue]

/-- Preparing a commit releases all savepoints. -/
theorem kept_prepare (L : Ledger s h) {r : Except Failure Unit} (hprepare : c.prepare s = (r, u)) :
    Kept c s u h (c.flushEvents s.begin (History.fates .released s.begin.path.dropLast)) := by
  rw [c.prepare_apply L.sound L.outer] at hprepare
  have hlength : s.begin.path.length = s.begin.outline.length := by
    rw [path_eq, List.length_map]
  have hpos := begin_outline_pos s
  have hkept := kept_proceed (L.idles (idles_begin s)) (by omega) hprepare
  rw [← hlength, ← List.dropLast_eq_take] at hkept
  exact (c.kept_begin L).trans (by rw [List.append_nil]; exact hkept)

/-- What is noted of a commit: its preparation, and the root transaction if it comes to its end. -/
theorem events_commit (L : Ledger s h) {r : Except Failure Unit} (hprepare : c.prepare s = (r, u)) :
    c.events s .commit =
      c.flushEvents s.begin (History.fates .released s.begin.path.dropLast) ++ match r with
        | .ok _ => History.fates .committed s.begin.path.getLast?.toList
        | .error _ => [] := by
  have hpos := begin_outline_pos s
  have hevents : c.events s .commit =
      c.flushEvents s.begin (History.fates .released s.begin.path.dropLast ++
        History.fates .committed s.begin.path.getLast?.toList) := rfl
  rw [c.prepare_apply L.sound L.outer] at hprepare
  have hspec := c.proceed_merge_spec hprepare ((stays_begin s).sound L.sound) (by omega)
  rw [hevents]
  cases r with
  | error e =>
      rw [List.append_nil]
      rcases hspec with ⟨hactive, _⟩ | ⟨hactive, hflush, _⟩
      · rw [flushEvents_of_not_isActive hactive, flushEvents_of_not_isActive hactive]
      · rw [flushEvents_of_error hactive hflush, flushEvents_of_error hactive hflush]
  | ok _ =>
      obtain ⟨hactive, v, hflush, _⟩ := hspec
      rw [flushEvents_of_ok hactive hflush, flushEvents_of_ok hactive hflush, List.cons_append]

/-- A commit fails while it is prepared, or it comes to its end, where the root transaction is the
only one. -/
theorem commit_cases (L : Ledger s h) :
    (∃ e t, c.prepare s = (.error e, t) ∧ c.commit s = (.error e, t) ∧
        Kept c s t h (c.events s .commit)) ∨
      ∃ u root events outcome t sent, c.prepare s = (.ok (), u) ∧
        s.begin.path.getLast? = some root ∧ u.outline = [(root, .active)] ∧
        (∃ ws, c.flushWrites s = .ok ws ∧ u.queue = s.queue ++ ws) ∧ Kept c s u h events ∧
        c.Settled root u t outcome sent ∧ c.commit s = (outcome, t) ∧
        c.events s .commit = events ++ History.fates .committed [root] := by
  rcases hprepare : c.prepare s with ⟨r, u⟩
  have hkept := kept_prepare L hprepare
  have hevents := events_commit L hprepare
  cases r with
  | error e =>
      refine Or.inl ⟨e, u, rfl, ?_, ?_⟩
      · rw [commit, Exec.bind_of_error hprepare]
      · rw [hevents, List.append_nil]
        exact hkept
  | ok _ =>
      obtain ⟨root, hroot, houtline, hchanges⟩ := outline_of_prepare L.sound L.outer hprepare
      obtain ⟨outcome, t, sent, hsettle, hsettled⟩ := settle_spec c houtline
      refine Or.inr ⟨u, root, _, outcome, t, sent, rfl, hroot, houtline, hchanges, hkept, hsettled,
        ?_, ?_⟩
      · rw [commit, Exec.bind_of_ok hprepare, hsettle]
      · rw [hevents, hroot]
        rfl

end Surroundings

end Typeahead
