import Typeahead.Proofs.Journal.Ledger

/-!
# Boundaries of transactions in the ledger

A flush keeps the ledger, whether it succeeds or fails, and so does the release of savepoints that
comes with it.  The only document writes that they send are those of listeners, `Kept`.
-/

namespace Typeahead

namespace Surroundings

open Session

theorem path_of_writeOf {c : Surroundings} {s : Session} {action : Action} {id : Nat}
    {w : PendingWrite} (h : c.writeOf s action id = some w) :
    w.path = s.path ∧ w.action = action := by
  unfold writeOf at h
  obtain ⟨o, _, h⟩ := Option.bind_eq_some_iff.mp h
  obtain ⟨x, _, h⟩ := Option.bind_eq_some_iff.mp h
  obtain ⟨parts, _, h⟩ := Option.bind_eq_some_iff.mp h
  obtain rfl := Option.some.inj h
  exact ⟨rfl, rfl⟩

theorem path_of_mem_written {c : Surroundings} {s t : Session} {w : PendingWrite}
    (h : w ∈ c.written s t) : w.path = t.path := by
  rcases List.mem_append.mp h with h | h
  · rcases List.mem_append.mp h with h | h
    · obtain ⟨id, _, hw⟩ := List.mem_filterMap.mp h
      exact (path_of_writeOf hw).1
    · obtain ⟨id, _, hw⟩ := List.mem_filterMap.mp h
      exact (path_of_writeOf hw).1
  · obtain ⟨id, _, hw⟩ := List.mem_filterMap.mp h
    exact (path_of_writeOf hw).1

/-- The changes of some flush that succeeds, captured from the session right after it. -/
def IsFlush (catalog : Catalog) (backend : Backend) (ws : List PendingWrite) : Prop :=
  ∃ enabled s t, flush ⟨catalog, backend, enabled⟩ s = (.ok (), t) ∧
    ws = written ⟨catalog, backend, enabled⟩ s t

end Surroundings

namespace History

theorem flushed_notMem_fates (ws : List PendingWrite) (fate : Fate) (ids : List Nat) :
    Event.flushed ws ∉ fates fate ids := by
  intro h
  obtain ⟨id, _, hid⟩ := List.mem_map.mp h
  cases hid

theorem waiting_congr {h k : History} {p q : List Nat} (hcaptures : k.captures = h.captures)
    (hundone : k.met .undone = h.met .undone) (hcommitted : k.met .committed = h.met .committed)
    (hp : p ≠ []) (hq : q ≠ []) (hlast : p.getLast? = q.getLast?) :
    k.waiting p = h.waiting q := by
  rw [waiting, waiting, hcaptures]
  refine List.filter_congr fun w _ => decide_eq_decide.mpr ?_
  simp only [Waits, hundone, hcommitted, hlast, hp, hq, ne_eq, not_false_iff]

theorem captured_notMem_fates (ws : List PendingWrite) (fate : Fate) (ids : List Nat) :
    Event.captured ws ∉ fates fate ids := by
  intro h
  obtain ⟨id, _, hid⟩ := List.mem_map.mp h
  cases hid

end History

namespace Ledger

variable {s t : Session} {h : History}

theorem flushed (L : Ledger s h) {c : Surroundings} (hstack : s.path ≠ [])
    (hactive : ∀ e ∈ s.outline, e.2 = .active) (hflushed : Session.Flushed c s t) :
    Ledger t (h ++ [.flushed (c.written s t)]) := by
  have hpath : t.path = s.path := by rw [Session.path_eq, Session.path_eq, hflushed.outline]
  have hcaptures : History.captures [.flushed (c.written s t)] = c.written s t := by
    simp [History.captures, Event.captures]
  have hstill (e : Nat × TransactionState) (he : e ∈ t.outline) : e.2 = .active := by
    rw [hflushed.outline] at he
    exact hactive e he
  suffices C : Captures [.flushed (c.written s t)] (c.written s t) [] s t from L.capture C
  refine { stack := hstack, active := hactive, path := hpath,
           outer := by rw [hflushed.outline], created := hflushed.created,
           savepoints := hflushed.savepoints,
           sound := hflushed.sound, queue := hflushed.queue, captures := hcaptures,
           paths := ?paths, met := ?met, within := fun id hid => absurd hid List.not_mem_nil,
           broken := ?broken, committed := ?committed, torn := ?torn }
  case paths =>
    intro w hw
    rw [Surroundings.path_of_mem_written hw, hpath]
  case met =>
    intro fate
    simp [History.met, Event.metBy?]
  case broken =>
    intro e he
    simp [hstill e he]
  case committed =>
    intro e he
    simp [hstill e he]
  case torn =>
    intro vs hvs
    simp at hvs

theorem aborted (L : Ledger s h) {c : Surroundings} (hstack : s.path ≠ [])
    (hactive : ∀ e ∈ s.outline, e.2 = .active) (haborted : Session.Aborted c s t) :
    Ledger t (h ++ .captured (t.queue.drop s.queue.length) ::
      History.fates .broken s.path.head?.toList) := by
  obtain ⟨ws, hqueue, hpaths⟩ := haborted.queue
  have hdrop : t.queue.drop s.queue.length = ws := by rw [hqueue, List.drop_left]
  rw [hdrop]
  have houtline := haborted.outline
  obtain ⟨⟨i, state⟩, rest, hs⟩ : ∃ e rest, s.outline = e :: rest := by
    refine List.exists_cons_of_ne_nil fun hnil => hstack ?_
    rw [Session.path_eq, hnil, List.map_nil]
  rw [hs, List.modifyHead_cons] at houtline
  have hspath : s.path = i :: rest.map (·.1) := by rw [Session.path_eq, hs, List.map_cons]
  have hpath : t.path = s.path := by rw [Session.path_eq, houtline, hspath, List.map_cons]
  have hhead : s.path.head?.toList = [i] := by rw [hspath]; rfl
  rw [hhead]
  have hrest (e : Nat × TransactionState) (he : e ∈ rest) : e.2 = .active ∧ e.1 ≠ i := by
    have hdescending := L.descending
    rw [hspath, List.pairwise_cons] at hdescending
    refine ⟨hactive e (by rw [hs]; exact List.mem_cons_of_mem _ he), ?_⟩
    exact (hdescending.1 e.1 (List.mem_map_of_mem he)).ne
  suffices C : Captures (.captured ws :: History.fates .broken [i]) ws [i] s t from L.capture C
  refine { stack := hstack, active := hactive, path := hpath,
           outer := by rw [houtline, hs]; rfl, created := haborted.created,
           savepoints := haborted.savepoints,
           sound := haborted.sound, queue := hqueue, captures := ?captures, paths := hpaths,
           met := ?met, within := ?within, broken := ?broken, committed := ?committed,
           torn := ?torn }
  case captures =>
    have hnone := History.captures_fates .broken [i]
    rw [History.captures, List.flatMap_cons, ← History.captures, hnone, List.append_nil]
    rfl
  case met =>
    intro fate
    cases fate <;> rfl
  case within =>
    intro id hid
    rw [hspath, List.mem_singleton.mp hid]
    exact List.mem_cons_self
  case broken =>
    rw [houtline]
    intro e he
    rcases List.mem_cons.mp he with rfl | he
    · simp
    · obtain ⟨hstate, hne⟩ := hrest e he
      simp [hstate, hne]
  case committed =>
    rw [houtline]
    intro e he
    rcases List.mem_cons.mp he with rfl | he
    · simp
    · simp [(hrest e he).1]
  case torn =>
    intro vs hvs w hw
    rcases List.mem_cons.mp hvs with hvs | hvs
    · obtain rfl := Event.captured.inj hvs
      refine ⟨i, ?_, List.mem_singleton_self i⟩
      rw [hpaths w hw, hspath]
      exact List.mem_cons_self
    · exact absurd hvs (History.captured_notMem_fates vs .broken [i])

/-- Savepoints are released, and their writes wait on. -/
theorem merged (L : Ledger s h) (hactive : ∀ e ∈ s.outline, e.2 = .active) {n : Nat}
    (hn : n < s.outline.length) (hcloses : Session.Closes n s t) (hqueue : t.queue = s.queue) :
    Ledger t (h ++ History.fates .released (s.path.take n)) := by
  have hgone : (s.outline.take n).map Prod.fst = s.path.take n := by
    rw [List.map_take, ← Session.path_eq]
  have hlength : n < s.path.length := by rwa [Session.path_eq, List.length_map]
  have hleft : t.path ≠ [] := by
    rw [hcloses.path, ← List.length_pos_iff, List.length_drop]
    omega
  have hstack : s.path ≠ [] := List.length_pos_iff.mp (Nat.zero_lt_of_lt hlength)
  have hlast : t.path.getLast? = s.path.getLast? := by
    rw [hcloses.path, List.getLast?_drop, if_neg (by omega)]
  have E : Ends .released (s.outline.take n) s t :=
    { outline := by rw [hcloses.outline, List.take_append_drop]
      created := hcloses.created
      savepoints := hcloses.savepoints
      ways := Or.inl rfl
      released := fun _ e he => hactive e (List.mem_of_mem_take he)
      left := nofun }
  have hwaiting : (h ++ History.fates .released (s.path.take n)).waiting t.path =
      h.waiting s.path := by
    refine History.waiting_congr ?_ ?_ ?_ hleft hstack hlast
    · rw [History.captures_append_fates]
    · rw [History.met_append_fates h (by decide)]
    · rw [History.met_append_fates h (by decide)]
  have hended := L.ended E (hcloses.sound L.sound) (by rw [hgone, hwaiting, hqueue, L.queue])
    fun w hw => hqueue ▸ hw
  rwa [hgone] at hended

end Ledger

/-- A session goes over into another one with several events: the ledger is kept, and listeners
alone send document writes. -/
structure Kept (c : Surroundings) (s t : Session) (h events : History) : Prop where
  heard : ∃ heard, Session.Heard c heard s t
  commits : events.met .committed = []
  flushes : ∀ ws, .flushed ws ∈ events → Surroundings.IsFlush c.catalog c.backend ws
  ledger : Ledger t (h ++ events)

namespace Kept

variable {c : Surroundings} {s t u : Session} {h events more : History}

theorem trans (k : Kept c s t h events) (l : Kept c t u (h ++ events) more) :
    Kept c s u h (events ++ more) := by
  obtain ⟨heard, hheard⟩ := k.heard
  obtain ⟨later, hlater⟩ := l.heard
  refine ⟨⟨heard ++ later, hheard.append hlater⟩, ?_, fun ws hws => ?_, ?_⟩
  · rw [History.met_append, k.commits, l.commits, List.append_nil]
  · rcases List.mem_append.mp hws with hws | hws
    · exact k.flushes ws hws
    · exact l.flushes ws hws
  · rw [← List.append_assoc]
    exact l.ledger

/-- Nothing is noted. -/
theorem of_ledger (hwrites : t.writes = s.writes) (L : Ledger t h) : Kept c s t h [] where
  heard := ⟨[], Session.Heard.nil c hwrites⟩
  commits := rfl
  flushes _ hws := absurd hws List.not_mem_nil
  ledger := by
    rw [List.append_nil]
    exact L

theorem of_idles (L : Ledger s h) (hidles : Session.Idles s t) : Kept c s t h [] :=
  of_ledger hidles.writes (L.idles hidles)

theorem refl (c : Surroundings) (L : Ledger s h) : Kept c s s h [] := of_ledger rfl L

/-- Transactions end without a commit. -/
theorem of_fates {fate : Fate} {ids : List Nat} (hfate : fate ≠ .committed)
    (hwrites : t.writes = s.writes) (L : Ledger t (h ++ History.fates fate ids)) :
    Kept c s t h (History.fates fate ids) where
  heard := ⟨[], Session.Heard.nil c hwrites⟩
  commits := by rw [History.met_fates, if_neg hfate]
  flushes ws hws := absurd hws (History.flushed_notMem_fates ws fate ids)
  ledger := L

end Kept

namespace Surroundings

open Session

variable {c : Surroundings} {s t u : Session} {h : History}

theorem flushEvents_of_ok (hactive : s.isActive = true) (hflush : c.flush s = (.ok (), u))
    (next : History) : c.flushEvents s next = .flushed (c.written s u) :: next := by
  rw [flushEvents, if_pos hactive, hflush]

theorem flushEvents_of_error (hactive : s.isActive = true) {e : Failure}
    (hflush : c.flush s = (.error e, u)) (next : History) : c.flushEvents s next =
      .captured (u.queue.drop s.queue.length) :: History.fates .broken s.path.head?.toList := by
  rw [flushEvents, if_pos hactive, hflush]

theorem flushEvents_of_not_isActive (hactive : s.isActive = false) (next : History) :
    c.flushEvents s next = [] := by
  rw [flushEvents, hactive, if_neg Bool.false_ne_true]

/-- Going on in the innermost transaction and releasing several savepoints. -/
theorem kept_proceed (L : Ledger s h) {n : Nat} (hn : n < s.outline.length)
    {r : Except Failure Unit}
    (hproceed : (do c.proceed; modify Session.mergeInnermost^[n] : Exec Unit) s = (r, t)) :
    Kept c s t h (c.flushEvents s (History.fates .released (s.path.take n))) := by
  have hspec := c.proceed_merge_spec hproceed L.sound hn
  have hpath : s.path ≠ [] := by
    rw [Session.path_eq, ← List.length_pos_iff, List.length_map]
    exact Nat.zero_lt_of_lt hn
  cases r with
  | error e =>
      rcases hspec with ⟨hactive, rfl⟩ | ⟨hactive, hflush, haborted⟩
      · rw [flushEvents_of_not_isActive hactive]
        exact Kept.refl c L
      · have hall := active_of_isActive L.outer hactive
        rw [flushEvents_of_error hactive hflush]
        refine ⟨haborted.heard.exists_heard, ?_, fun ws hws => ?_, L.aborted hpath hall haborted⟩
        · exact History.met_fates .broken .committed s.path.head?.toList
        · rcases List.mem_cons.mp hws with hws | hws
          · cases hws
          · exact absurd hws (History.flushed_notMem_fates ws _ _)
  | ok _ =>
      obtain ⟨hactive, u, hflush, hflushed, hcloses, hqueue⟩ := hspec
      have hall := active_of_isActive L.outer hactive
      have hkept : Kept c s u h [.flushed (c.written s u)] := by
        refine ⟨hflushed.heard.exists_heard, rfl, fun ws hws => ?_, L.flushed hpath hall hflushed⟩
        obtain rfl := Event.flushed.inj (List.mem_singleton.mp hws)
        exact ⟨c.enabled, s, u, hflush, rfl⟩
      have hsame : u.path = s.path := by rw [path_eq, path_eq, hflushed.outline]
      have hmerged := hkept.ledger.merged (n := n) (by rw [hflushed.outline]; exact hall)
        (by rw [hflushed.outline]; exact hn) hcloses hqueue
      rw [hsame] at hmerged
      rw [flushEvents_of_ok hactive hflush]
      exact hkept.trans (Kept.of_fates (by decide) hcloses.writes hmerged)

end Surroundings

end Typeahead
