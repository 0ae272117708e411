import Typeahead.Proofs.Journal.History

/-!
# The ledger of a run

What ties a session to the history of its run, `Ledger`: the queue holds exactly the
captured writes of the open root transaction of which no transaction was undone or
committed, and the fates of all transactions agree with the stack.  A transaction that a
failed flush broke stays broken until it is undone or left, and only the innermost one can
be broken.
-/

namespace Typeahead

namespace History

theorem flushes_append (h k : History) : (h ++ k).flushes = h.flushes ++ k.flushes :=
  List.flatMap_append

theorem captures_append (h k : History) : (h ++ k).captures = h.captures ++ k.captures :=
  List.flatMap_append

theorem met_append (h k : History) (fate : Fate) :
    (h ++ k).met fate = h.met fate ++ k.met fate := List.filterMap_append

theorem captures_fates (fate : Fate) (ids : List Nat) : (fates fate ids).captures = [] := by
  rw [captures, fates, List.flatMap_map]
  exact List.flatMap_eq_nil_iff.mpr fun _ _ => rfl

theorem met_fates (fate fate' : Fate) (ids : List Nat) :
    (fates fate ids).met fate' = if fate = fate' then ids else [] := by
  by_cases h : fate = fate'
  · simp [met, fates, Function.comp_def, Event.metBy?, h]
  · simp [met, fates, Function.comp_def, Event.metBy?, h]

theorem captures_append_fates (h : History) (fate : Fate) (ids : List Nat) :
    (h ++ fates fate ids).captures = h.captures := by
  rw [captures_append, captures_fates, List.append_nil]

/-- No transaction meets a fate when others meet another one. -/
theorem met_append_fates (h : History) {fate f : Fate} (hne : fate ≠ f) (ids : List Nat) :
    (h ++ fates fate ids).met f = h.met f := by
  rw [met_append, met_fates, if_neg hne, List.append_nil]

theorem met_append_fates_self (h : History) (fate : Fate) (ids : List Nat) :
    (h ++ fates fate ids).met fate = h.met fate ++ ids := by
  rw [met_append, met_fates, if_pos rfl]

theorem mem_met_fates {h : History} {fate f : Fate} {ids : List Nat} {id : Nat} :
    id ∈ (h ++ fates fate ids).met f ↔ id ∈ h.met f ∨ fate = f ∧ id ∈ ids := by
  rw [met_append, met_fates, List.mem_append]
  split
  · next heq => simp [heq]
  · next hne => simp [hne]

/-- A captured write waits for the root transaction of a path: no transaction around it was
undone, and the rows are not committed. -/
def Waits (h : History) (path : List Nat) (w : PendingWrite) : Prop :=
  path ≠ [] ∧ w.path.getLast? = path.getLast? ∧
    ∀ id ∈ w.path, id ∉ h.met .undone ∧ id ∉ h.met .committed

instance (h : History) (path : List Nat) : DecidablePred (h.Waits path) := fun w =>
  inferInstanceAs (Decidable (path ≠ [] ∧ w.path.getLast? = path.getLast? ∧
    ∀ id ∈ w.path, id ∉ h.met .undone ∧ id ∉ h.met .committed))

/-- The captured writes that wait. -/
def waiting (h : History) (path : List Nat) : List PendingWrite :=
  h.captures.filter fun w => h.Waits path w

theorem waiting_nil (h : History) : h.waiting [] = [] :=
  List.filter_eq_nil_iff.mpr fun w _ => by simp [Waits]

theorem mem_waiting {h : History} {path : List Nat} {w : PendingWrite} :
    w ∈ h.waiting path ↔ w ∈ h.captures ∧ h.Waits path w := by
  simp [waiting]

end History

/-- How the history of a run and its session belong together. -/
structure Ledger (s : Session) (h : History) : Prop where
  sound : s.Sound
  /-- transactions are numbered as they are opened -/
  descending : s.path.Pairwise (· > ·)
  numbered : ∀ id ∈ s.path, id < s.created
  met : ∀ fate, ∀ id ∈ h.met fate, id < s.created
  captured : ∀ w ∈ h.captures, ∀ id ∈ w.path, id < s.created
  outer : ∀ e ∈ s.outline.tail, e.2 = .active
  /-- the fates of open transactions -/
  unfinished : ∀ id ∈ s.path, id ∉ h.met .released ∧ id ∉ h.met .undone ∧ id ∉ h.met .left
  broken : ∀ e ∈ s.outline, e.2 = .broken ↔ e.1 ∈ h.met .broken
  committed : ∀ e ∈ s.outline, e.2 = .committed ↔ e.1 ∈ h.met .committed
  /-- the fates of all transactions -/
  fallen : ∀ id ∈ h.met .broken, id ∈ s.path ∨ id ∈ h.met .undone ∨ id ∈ h.met .left
  left : ∀ id ∈ h.met .left, id ∈ h.met .broken
  released : ∀ id ∈ h.met .released,
    id ∉ h.met .broken ∧ id ∉ h.met .undone ∧ id ∉ h.met .committed
  /-- what a failed flush captured hangs on a broken transaction -/
  torn : ∀ ws, .captured ws ∈ h → ∀ w ∈ ws, ∃ id ∈ w.path, id ∈ h.met .broken
  queue : s.queue = h.waiting s.path
  /-- a waiting write hangs on all open transactions around one that it hangs on -/
  nested : ∀ w ∈ s.queue, ∀ i ∈ w.path, i ∈ s.path → ∀ j ∈ s.path, j < i → j ∈ w.path
  passed : ∀ w ∈ s.queue, ∀ i ∈ w.path, i ∈ s.path ∨ i ∈ h.met .released ∨ i ∈ h.met .left
  /-- a name was given to a savepoint -/
  named : ∀ e ∈ s.savepoints, e.2 < s.created ∧ s.path.getLast? ≠ some e.2

namespace Ledger

variable {s t : Session} {h : History}

theorem empty : Ledger .empty [] where
  sound := Session.sound_empty
  descending := List.Pairwise.nil
  numbered _ hid := absurd hid List.not_mem_nil
  met _ _ hid := absurd hid List.not_mem_nil
  captured _ hw := absurd hw List.not_mem_nil
  outer _ he := absurd he List.not_mem_nil
  unfinished _ hid := absurd hid List.not_mem_nil
  broken _ he := absurd he List.not_mem_nil
  committed _ he := absurd he List.not_mem_nil
  fallen _ hid := absurd hid List.not_mem_nil
  left _ hid := absurd hid List.not_mem_nil
  released _ hid := absurd hid List.not_mem_nil
  torn _ hws := absurd hws List.not_mem_nil
  queue := rfl
  nested _ hw := absurd hw List.not_mem_nil
  passed _ hw := absurd hw List.not_mem_nil
  named _ he := absurd he List.not_mem_nil

/-- Only the transactions, their names and the queue matter. -/
theorem congr (L : Ledger s h) (houtline : t.outline = s.outline) (hcreated : t.created = s.created)
    (hsavepoints : t.savepoints = s.savepoints) (hqueue : t.queue = s.queue) (hsound : t.Sound) :
    Ledger t h := by
  have hpath : t.path = s.path := by rw [Session.path_eq, Session.path_eq, houtline]
  refine { sound := hsound, descending := by rw [hpath]; exact L.descending,
           numbered := by rw [hpath, hcreated]; exact L.numbered,
           met := by rw [hcreated]; exact L.met, captured := by rw [hcreated]; exact L.captured,
           outer := by rw [houtline]; exact L.outer,
           unfinished := by rw [hpath]; exact L.unfinished,
           broken := by rw [houtline]; exact L.broken,
           committed := by rw [houtline]; exact L.committed,
           fallen := by rw [hpath]; exact L.fallen, left := L.left, released := L.released,
           torn := L.torn, queue := by rw [hpath, hqueue]; exact L.queue,
           nested := by rw [hpath, hqueue]; exact L.nested,
           passed := by rw [hpath, hqueue]; exact L.passed,
           named := by rw [hpath, hcreated, hsavepoints]; exact L.named }

/-- A transaction is opened, and inside another one it may get a name. -/
theorem push (L : Ledger s h) (houtline : t.outline = (s.created, .active) :: s.outline)
    (hcreated : t.created = s.created + 1) (hqueue : t.queue = s.queue) (hsound : t.Sound)
    (hactive : ∀ e ∈ s.outline, e.2 = .active)
    (hnamed : ∀ e ∈ t.savepoints, e ∈ s.savepoints ∨ e.2 = s.created ∧ s.path ≠ []) :
    Ledger t h := by
  have hpath : t.path = s.created :: s.path := by
    rw [Session.path_eq, Session.path_eq, houtline, List.map_cons]
  have hnew (fate : Fate) : s.created ∉ h.met fate := fun hmem =>
    absurd (L.met fate _ hmem) (Nat.lt_irrefl _)
  have hwaiting : h.waiting t.path = h.waiting s.path := by
    rw [hpath]
    cases hs : s.path with
    | nil =>
        rw [History.waiting_nil]
        refine List.filter_eq_nil_iff.mpr fun w hw hwaits => ?_
        have hlast := (of_decide_eq_true hwaits).2.1
        have hmem : s.created ∈ w.path := List.mem_of_getLast? hlast
        exact absurd (L.captured w hw s.created hmem) (Nat.lt_irrefl _)
    | cons i rest => simp [History.waiting, History.Waits]
  have hqueued (w : PendingWrite) (hw : w ∈ t.queue) : s.created ∉ w.path := by
    intro hmem
    rw [hqueue, L.queue] at hw
    exact absurd (L.captured w (History.mem_waiting.mp hw).1 s.created hmem) (Nat.lt_irrefl _)
  refine { sound := hsound, descending := ?descending, numbered := ?numbered, met := ?met,
           captured := ?captured, outer := by rw [houtline]; exact hactive,
           unfinished := ?unfinished, broken := ?broken, committed := ?committed,
           fallen := ?fallen, left := L.left, released := L.released, torn := L.torn,
           queue := by rw [hqueue, hwaiting]; exact L.queue, nested := ?nested,
           passed := ?passed, named := ?named }
  case descending =>
    rw [hpath]
    exact List.pairwise_cons.mpr ⟨L.numbered, L.descending⟩
  case numbered =>
    rw [hpath, hcreated]
    intro id hid
    rcases List.mem_cons.mp hid with rfl | hid
    · exact Nat.lt_succ_self _
    · exact Nat.lt_succ_of_lt (L.numbered id hid)
  case met =>
    rw [hcreated]
    exact fun fate id hid => Nat.lt_succ_of_lt (L.met fate id hid)
  case captured =>
    rw [hcreated]
    exact fun w hw id hid => Nat.lt_succ_of_lt (L.captured w hw id hid)
  case unfinished =>
    rw [hpath]
    intro id hid
    rcases List.mem_cons.mp hid with rfl | hid
    · exact ⟨hnew _, hnew _, hnew _⟩
    · exact L.unfinished id hid
  case broken =>
    rw [houtline]
    intro e he
    rcases List.mem_cons.mp he with rfl | he
    · simpa using hnew .broken
    · exact L.broken e he
  case committed =>
    rw [houtline]
    intro e he
    rcases List.mem_cons.mp he with rfl | he
    · simpa using hnew .committed
    · exact L.committed e he
  case fallen =>
    rw [hpath]
    exact fun id hid => (L.fallen id hid).imp_left (List.mem_cons_of_mem _)
  case nested =>
    intro w hw i hi hopen j hj hlt
    rw [hpath] at hopen hj
    rcases List.mem_cons.mp hopen with rfl | hopen
    · exact absurd hi (hqueued w hw)
    · rcases List.mem_cons.mp hj with rfl | hj
      · exact absurd (L.numbered i hopen) (Nat.lt_asymm hlt)
      · exact L.nested w (hqueue ▸ hw) i hi hopen j hj hlt
  case passed =>
    rw [hpath]
    exact fun w hw i hi => (L.passed w (hqueue ▸ hw) i hi).imp_left (List.mem_cons_of_mem _)
  case named =>
    intro e he
    rw [hcreated, hpath]
    rcases hnamed e he with hold | ⟨hnew, hopen⟩
    · obtain ⟨hlt, hroot⟩ := L.named e hold
      refine ⟨Nat.lt_succ_of_lt hlt, fun hlast => ?_⟩
      cases hs : s.path with
      | nil =>
          rw [hs] at hlast
          exact hlt.ne (Option.some.inj hlast).symm
      | cons i rest =>
          rw [hs] at hlast hroot
          exact hroot hlast
    · refine ⟨by rw [hnew]; exact Nat.lt_succ_self _, fun hlast => ?_⟩
      cases hs : s.path with
      | nil => exact hopen hs
      | cons i rest =>
          -- the root transaction was there before
          rw [hs, List.getLast?_cons_cons, ← hs, hnew] at hlast
          exact absurd (L.numbered _ (List.mem_of_getLast? hlast)) (Nat.lt_irrefl _)

/-- Commands that wait leave the ledger as it is. -/
theorem idles (L : Ledger s h) (hidles : Session.Idles s t) : Ledger t h := by
  have hsound := hidles.sound L.sound
  have hsavepoints := hidles.opens.savepoints
  rcases hidles.opens.cases with ⟨houtline, hcreated⟩ | ⟨hnil, houtline, hcreated⟩
  · exact L.congr houtline hcreated hsavepoints hidles.queue hsound
  · refine L.push (by rw [houtline, hnil]) hcreated hidles.queue hsound (fun e he => ?_)
      fun e he => Or.inl (hsavepoints ▸ he)
    rw [hnil] at he
    cases he

theorem mem_path {e : Nat × TransactionState} (he : e ∈ s.outline) : e.1 ∈ s.path := by
  rw [Session.path_eq]
  exact List.mem_map_of_mem he

theorem exists_of_mem_path {id : Nat} (hid : id ∈ s.path) : ∃ e ∈ s.outline, e.1 = id := by
  rw [Session.path_eq] at hid
  exact List.mem_map.mp hid

/-- Active transactions are neither broken nor committed. -/
theorem not_met (L : Ledger s h) (hactive : ∀ e ∈ s.outline, e.2 = .active) :
    ∀ id ∈ s.path, id ∉ h.met .broken ∧ id ∉ h.met .committed := by
  intro id hid
  obtain ⟨e, he, rfl⟩ := exists_of_mem_path hid
  have hstate := hactive e he
  refine ⟨fun hbroken => ?_, fun hcommitted => ?_⟩
  · rw [(L.broken e he).mpr hbroken] at hstate
    cases hstate
  · rw [(L.committed e he).mpr hcommitted] at hstate
    cases hstate

end Ledger

/-- Writes are captured in the open transactions, and `fell` has the innermost one if the flush
that captured them broke it. -/
structure Captures (events : History) (ws : List PendingWrite) (fell : List Nat)
    (s t : Session) : Prop where
  stack : s.path ≠ []
  active : ∀ e ∈ s.outline, e.2 = .active
  path : t.path = s.path
  outer : t.outline.tail = s.outline.tail
  created : t.created = s.created
  savepoints : t.savepoints = s.savepoints
  sound : t.Sound
  queue : t.queue = s.queue ++ ws
  captures : events.captures = ws
  paths : ∀ w ∈ ws, w.path = s.path
  met : ∀ fate, events.met fate = if fate = .broken then fell else []
  within : ∀ id ∈ fell, id ∈ s.path
  broken : ∀ e ∈ t.outline, e.2 = .broken ↔ e.1 ∈ fell
  committed : ∀ e ∈ t.outline, e.2 ≠ .committed
  torn : ∀ vs, .captured vs ∈ events → ∀ w ∈ vs, ∃ id ∈ w.path, id ∈ fell

namespace Captures

variable {s t : Session} {h events : History} {ws : List PendingWrite} {fell : List Nat}

/-- No transaction meets another fate than to break. -/
theorem met_eq (C : Captures events ws fell s t) (h : History) {fate : Fate}
    (hfate : fate ≠ .broken) : (h ++ events).met fate = h.met fate := by
  rw [History.met_append, C.met, if_neg hfate, List.append_nil]

theorem met_broken (C : Captures events ws fell s t) (h : History) :
    (h ++ events).met .broken = h.met .broken ++ fell := by
  rw [History.met_append, C.met, if_pos rfl]

/-- All of the captured writes wait. -/
theorem waiting_eq (C : Captures events ws fell s t) (L : Ledger s h) :
    (h ++ events).waiting t.path = t.queue := by
  rw [C.queue, L.queue, C.path, History.waiting, History.waiting, History.captures_append,
    List.filter_append, C.captures]
  congr 1
  · refine List.filter_congr fun w _ => decide_eq_decide.mpr ?_
    rw [History.Waits, C.met_eq h (by decide), C.met_eq h (by decide)]
    exact Iff.rfl
  · refine List.filter_eq_self.mpr fun w hw => decide_eq_true ⟨C.stack, ?_, fun id hid => ?_⟩
    · rw [C.paths w hw]
    · rw [C.paths w hw] at hid
      rw [C.met_eq h (by decide), C.met_eq h (by decide)]
      exact ⟨(L.unfinished id hid).2.1, (L.not_met C.active id hid).2⟩

end Captures

/-- The innermost transactions end, all in one way. -/
structure Ends (fate : Fate) (gone : List (Nat × TransactionState)) (s t : Session) : Prop where
  outline : s.outline = gone ++ t.outline
  created : t.created = s.created
  savepoints : t.savepoints = s.savepoints
  ways : fate = .released ∨ fate = .undone ∨ fate = .left
  released : fate = .released → ∀ e ∈ gone, e.2 = .active
  left : fate = .left → ∀ e ∈ gone, e.2 = .broken

namespace Ends

variable {s t : Session} {h : History} {gone : List (Nat × TransactionState)} {fate : Fate}

theorem path_eq (E : Ends fate gone s t) : s.path = gone.map Prod.fst ++ t.path := by
  rw [Session.path_eq, Session.path_eq, E.outline, List.map_append]

theorem mem_outline (E : Ends fate gone s t) {e : Nat × TransactionState} (he : e ∈ t.outline) :
    e ∈ s.outline := by
  rw [E.outline]
  exact List.mem_append_right _ he

theorem mem_path (E : Ends fate gone s t) {id : Nat} (hid : id ∈ t.path) : id ∈ s.path := by
  rw [E.path_eq]
  exact List.mem_append_right _ hid

theorem mem_path_of_gone (E : Ends fate gone s t) {id : Nat} (hid : id ∈ gone.map Prod.fst) :
    id ∈ s.path := by
  rw [E.path_eq]
  exact List.mem_append_left _ hid

/-- An ended transaction with the state that it had. -/
theorem exists_of_gone (E : Ends fate gone s t) {id : Nat} (hid : id ∈ gone.map Prod.fst) :
    ∃ e ∈ gone, e.1 = id ∧ e ∈ s.outline := by
  obtain ⟨e, he, rfl⟩ := List.mem_map.mp hid
  refine ⟨e, he, rfl, ?_⟩
  rw [E.outline]
  exact List.mem_append_left _ he

/-- The transactions that are left are other ones than those that end. -/
theorem notMem_gone (E : Ends fate gone s t) (L : Ledger s h) {id : Nat} (hid : id ∈ t.path) :
    id ∉ gone.map Prod.fst := by
  have hdescending := L.descending
  rw [E.path_eq] at hdescending
  obtain ⟨_, _, hcross⟩ := List.pairwise_append.mp hdescending
  exact fun hmem => absurd (hcross id hmem id hid) (Nat.lt_irrefl id)

theorem ne_broken (E : Ends fate gone s t) : fate ≠ .broken := by
  rcases E.ways with rfl | rfl | rfl <;> decide

theorem ne_committed (E : Ends fate gone s t) : fate ≠ .committed := by
  rcases E.ways with rfl | rfl | rfl <;> decide

/-- An open transaction that ends has met the fate. -/
theorem met_of_gone (h : History) {id : Nat} (hid : id ∈ gone.map Prod.fst) :
    id ∈ (h ++ History.fates fate (gone.map Prod.fst)).met fate :=
  History.mem_met_fates.mpr (Or.inr ⟨rfl, hid⟩)

/-- A transaction that has broken is open, undone or left. -/
theorem fallen (E : Ends fate gone s t) (L : Ledger s h) {id : Nat} (hid : id ∈ h.met .broken) :
    id ∈ t.path ∨ id ∈ (h ++ History.fates fate (gone.map Prod.fst)).met .undone ∨
      id ∈ (h ++ History.fates fate (gone.map Prod.fst)).met .left := by
  rcases L.fallen id hid with hopen | hu | hl
  · rw [E.path_eq] at hopen
    rcases List.mem_append.mp hopen with hopen | hopen
    · rcases E.ways with rfl | rfl | rfl
      · -- a broken transaction is not released
        obtain ⟨e, he, rfl, hes⟩ := E.exists_of_gone hopen
        have hactive := E.released rfl e he
        rw [(L.broken e hes).mpr hid] at hactive
        cases hactive
      · exact Or.inr (Or.inl (met_of_gone h hopen))
      · exact Or.inr (Or.inr (met_of_gone h hopen))
    · exact Or.inl hopen
  · exact Or.inr (Or.inl (History.mem_met_fates.mpr (Or.inl hu)))
  · exact Or.inr (Or.inr (History.mem_met_fates.mpr (Or.inl hl)))

/-- A released transaction met no other fate. -/
theorem released_only (E : Ends fate gone s t) (L : Ledger s h) {id : Nat}
    (hid : id ∈ (h ++ History.fates fate (gone.map Prod.fst)).met .released) :
    id ∉ h.met .broken ∧ id ∉ (h ++ History.fates fate (gone.map Prod.fst)).met .undone ∧
      id ∉ h.met .committed := by
  rcases History.mem_met_fates.mp hid with hid | ⟨rfl, hgone⟩
  · obtain ⟨hb, hu, hc⟩ := L.released id hid
    refine ⟨hb, fun hmem => ?_, hc⟩
    rcases History.mem_met_fates.mp hmem with hmem | ⟨_, hmem⟩
    · exact hu hmem
    · exact (L.unfinished id (E.mem_path_of_gone hmem)).1 hid
  · obtain ⟨e, he, rfl, hes⟩ := E.exists_of_gone hgone
    have hactive := E.released rfl e he
    refine ⟨fun hb => ?_, fun hu => ?_, fun hc => ?_⟩
    · rw [(L.broken e hes).mpr hb] at hactive
      cases hactive
    · rw [History.met_append_fates h (by decide)] at hu
      exact (L.unfinished e.1 (E.mem_path_of_gone hgone)).2.1 hu
    · rw [(L.committed e hes).mpr hc] at hactive
      cases hactive

/-- A write that still waits hangs on transactions that are open, released or left. -/
theorem passed (E : Ends fate gone s t) (L : Ledger s h) {w : PendingWrite}
    (hold : w ∈ s.queue)
    (hw : w ∈ (h ++ History.fates fate (gone.map Prod.fst)).waiting t.path) {i : Nat}
    (hi : i ∈ w.path) :
    i ∈ t.path ∨ i ∈ (h ++ History.fates fate (gone.map Prod.fst)).met .released ∨
      i ∈ (h ++ History.fates fate (gone.map Prod.fst)).met .left := by
  rcases L.passed w hold i hi with hopen | hr | hl
  · rw [E.path_eq] at hopen
    rcases List.mem_append.mp hopen with hopen | hopen
    · rcases E.ways with rfl | rfl | rfl
      · exact Or.inr (Or.inl (met_of_gone h hopen))
      · -- it does not hang on an undone transaction
        exact absurd (met_of_gone h hopen) ((History.mem_waiting.mp hw).2.2.2 i hi).1
      · exact Or.inr (Or.inr (met_of_gone h hopen))
    · exact Or.inl hopen
  · exact Or.inr (Or.inl (History.mem_met_fates.mpr (Or.inl hr)))
  · exact Or.inr (Or.inr (History.mem_met_fates.mpr (Or.inl hl)))

end Ends

namespace Ledger

variable {s t : Session} {h events : History} {ws : List PendingWrite} {fell : List Nat}
  {gone : List (Nat × TransactionState)} {fate : Fate}

/-- Writes are captured. -/
theorem capture (L : Ledger s h) (C : Captures events ws fell s t) : Ledger t (h ++ events) := by
  have hsane := L.not_met C.active
  refine { sound := C.sound, descending := by rw [C.path]; exact L.descending,
           numbered := by rw [C.path, C.created]; exact L.numbered, met := ?met,
           captured := ?captured, outer := by rw [C.outer]; exact L.outer,
           unfinished := ?unfinished, broken := ?broken, committed := ?committed,
           fallen := ?fallen, left := ?left, released := ?released, torn := ?torn,
           queue := (C.waiting_eq L).symm, nested := ?nested, passed := ?passed,
           named := by rw [C.path, C.created, C.savepoints]; exact L.named }
  case met =>
    intro fate id hid
    rw [History.met_append, C.met] at hid
    rw [C.created]
    rcases List.mem_append.mp hid with hid | hid
    · exact L.met fate id hid
    · split at hid
      · exact L.numbered id (C.within id hid)
      · cases hid
  case captured =>
    intro w hw id hid
    rw [History.captures_append, C.captures] at hw
    rw [C.created]
    rcases List.mem_append.mp hw with hw | hw
    · exact L.captured w hw id hid
    · rw [C.paths w hw] at hid
      exact L.numbered id hid
  case unfinished =>
    rw [C.path, C.met_eq h (by decide), C.met_eq h (by decide), C.met_eq h (by decide)]
    exact L.unfinished
  case broken =>
    intro e he
    rw [C.met_broken, C.broken e he, List.mem_append]
    have hold := (hsane e.1 (C.path ▸ mem_path he)).1
    exact ⟨Or.inr, fun hmem => hmem.resolve_left hold⟩
  case committed =>
    intro e he
    rw [C.met_eq h (by decide)]
    have hold := (hsane e.1 (C.path ▸ mem_path he)).2
    exact ⟨fun hstate => absurd hstate (C.committed e he), fun hmem => absurd hmem hold⟩
  case fallen =>
    intro id hid
    rw [C.met_broken] at hid
    rw [C.path, C.met_eq h (by decide), C.met_eq h (by decide)]
    rcases List.mem_append.mp hid with hid | hid
    · exact L.fallen id hid
    · exact Or.inl (C.within id hid)
  case left =>
    intro id hid
    rw [C.met_eq h (by decide)] at hid
    rw [C.met_broken]
    exact List.mem_append_left fell (L.left id hid)
  case released =>
    intro id hid
    rw [C.met_eq h (by decide)] at hid
    rw [C.met_broken, C.met_eq h (by decide), C.met_eq h (by decide)]
    obtain ⟨hb, hu, hc⟩ := L.released id hid
    refine ⟨fun hmem => ?_, hu, hc⟩
    rcases List.mem_append.mp hmem with hmem | hmem
    · exact hb hmem
    · exact (L.unfinished id (C.within id hmem)).1 hid
  case torn =>
    intro vs hvs w hw
    rw [C.met_broken]
    rcases List.mem_append.mp hvs with hvs | hvs
    · obtain ⟨id, hid, hmem⟩ := L.torn vs hvs w hw
      exact ⟨id, hid, List.mem_append_left fell hmem⟩
    · obtain ⟨id, hid, hmem⟩ := C.torn vs hvs w hw
      exact ⟨id, hid, List.mem_append_right _ hmem⟩
  case nested =>
    intro w hw i hi hopen j hj hlt
    rw [C.path] at hopen hj
    rw [C.queue] at hw
    rcases List.mem_append.mp hw with hw | hw
    · exact L.nested w hw i hi hopen j hj hlt
    · rw [C.paths w hw]
      exact hj
  case passed =>
    intro w hw i hi
    rw [C.path, C.met_eq h (by decide), C.met_eq h (by decide)]
    rw [C.queue] at hw
    rcases List.mem_append.mp hw with hw | hw
    · exact L.passed w hw i hi
    · rw [C.paths w hw] at hi
      exact Or.inl hi

/-- Transactions end, and the writes that wait for what is left stay in the queue. -/
theorem ended (L : Ledger s h) (E : Ends fate gone s t) (hsound : t.Sound)
    (hqueue : t.queue = (h ++ History.fates fate (gone.map Prod.fst)).waiting t.path)
    (hsub : ∀ w ∈ t.queue, w ∈ s.queue) :
    Ledger t (h ++ History.fates fate (gone.map Prod.fst)) := by
  refine { sound := hsound, descending := ?descending, numbered := ?numbered, met := ?met,
           captured := ?captured, outer := ?outer, unfinished := ?unfinished,
           broken := ?broken, committed := ?committed, fallen := ?fallen, left := ?left,
           released := ?released, torn := ?torn, queue := hqueue, nested := ?nested,
           passed := fun w hw i hi => E.passed L (hsub w hw) (hqueue ▸ hw) hi, named := ?named }
  case descending =>
    have hdescending := L.descending
    rw [E.path_eq] at hdescending
    exact (List.pairwise_append.mp hdescending).2.1
  case numbered =>
    rw [E.created]
    exact fun id hid => L.numbered id (E.mem_path hid)
  case met =>
    intro f id hid
    rw [E.created]
    rcases History.mem_met_fates.mp hid with hid | ⟨_, hid⟩
    · exact L.met f id hid
    · exact L.numbered id (E.mem_path_of_gone hid)
  case captured =>
    rw [E.created, History.captures_append_fates]
    exact L.captured
  case outer =>
    intro e he
    refine L.outer e ?_
    rw [E.outline]
    cases gone with
    | nil => exact he
    | cons d rest => exact List.mem_append_right _ (List.mem_of_mem_tail he)
  case unfinished =>
    intro id hid
    have hnever (f : Fate) (hold : id ∉ h.met f) :
        id ∉ (h ++ History.fates fate (gone.map Prod.fst)).met f := fun hmem => by
      rcases History.mem_met_fates.mp hmem with hmem | ⟨_, hmem⟩
      · exact hold hmem
      · exact E.notMem_gone L hid hmem
    obtain ⟨hr, hu, hl⟩ := L.unfinished id (E.mem_path hid)
    exact ⟨hnever _ hr, hnever _ hu, hnever _ hl⟩
  case broken =>
    rw [History.met_append_fates h E.ne_broken]
    exact fun e he => L.broken e (E.mem_outline he)
  case committed =>
    rw [History.met_append_fates h E.ne_committed]
    exact fun e he => L.committed e (E.mem_outline he)
  case fallen =>
    rw [History.met_append_fates h E.ne_broken]
    exact fun id hid => E.fallen L hid
  case left =>
    intro id hid
    rw [History.met_append_fates h E.ne_broken]
    rcases History.mem_met_fates.mp hid with hid | ⟨heq, hid⟩
    · exact L.left id hid
    · obtain ⟨e, he, rfl, hes⟩ := E.exists_of_gone hid
      exact (L.broken e hes).mp (E.left heq e he)
  case released =>
    rw [History.met_append_fates h E.ne_broken, History.met_append_fates h E.ne_committed]
    exact fun id hid => E.released_only L hid
  case torn =>
    intro vs hvs w hw
    rw [History.met_append_fates h E.ne_broken]
    rcases List.mem_append.mp hvs with hvs | hvs
    · exact L.torn vs hvs w hw
    · obtain ⟨id, _, hid⟩ := List.mem_map.mp hvs
      cases hid
  case nested =>
    exact fun w hw i hi hopen j hj hlt =>
      L.nested w (hsub w hw) i hi (E.mem_path hopen) j (E.mem_path hj) hlt
  case named =>
    rw [E.created, E.savepoints]
    intro e he
    obtain ⟨hlt, hroot⟩ := L.named e he
    refine ⟨hlt, fun hlast => hroot ?_⟩
    rw [E.path_eq, List.getLast?_append, hlast]
    rfl

end Ledger

end Typeahead
