import Typeahead.Proofs.Session.Endings

/-!
# Boundaries of transactions

A savepoint is opened or released, and a commit is prepared, by a flush in the innermost
transaction, which has to be active.  After that flush nothing is left to flush, so that
releasing several savepoints is one flush that hands everything outwards, `release_apply` and
`prepare_apply`.
-/

namespace Typeahead

namespace Session

/-- Whether the innermost transaction can go on. -/
def isActive (s : Session) : Bool := s.outline.head?.all fun e => e.2 == .active

/-- The transaction that was opened under a name. -/
def savepoint? (s : Session) (name : String) : Option Nat :=
  (s.savepoints.find? fun e => e.1 == name).map Prod.snd

variable {s t : Session}

theorem isActive_iff : s.isActive = true ↔ ∀ e ∈ s.outline.head?, e.2 = .active := by
  unfold isActive
  cases s.outline.head? with
  | none => simp
  | some e => simp

theorem isActive_begin (s : Session) : s.begin.isActive = s.isActive := by
  unfold begin inTransaction isActive outline
  cases hstack : s.stack with
  | nil => rfl
  | cons t rest => simp [hstack]

/-- All open transactions are active when the innermost one is. -/
theorem active_of_isActive (houter : ∀ e ∈ s.outline.tail, e.2 = .active)
    (h : s.isActive = true) : ∀ e ∈ s.outline, e.2 = .active := by
  have hhead := isActive_iff.mp h
  intro e he
  cases houtline : s.outline with
  | nil =>
      rw [houtline] at he
      cases he
  | cons d rest =>
      rw [houtline] at he hhead houter
      rcases List.mem_cons.mp he with rfl | he
      · exact hhead e rfl
      · exact houter e he

theorem isActive_of_active (h : ∀ e ∈ s.outline, e.2 = .active) : s.isActive = true :=
  isActive_iff.mpr fun e he => h e (List.mem_of_mem_head? he)

theorem begin_eq_self (h : s.stack ≠ []) : s.begin = s := by
  unfold begin inTransaction
  cases hstack : s.stack with
  | nil => exact absurd hstack h
  | cons t rest => rfl

theorem begin_begin (s : Session) : s.begin.begin = s.begin := begin_eq_self s.begin_stack_ne_nil

/-- Handing the innermost transaction outwards leaves a session in which it can go on. -/
theorem merge_ready (hactive : ∀ e ∈ s.outline, e.2 = .active) (hs : s.Sound)
    (hstack : s.stack ≠ []) :
    s.mergeInnermost.isClean = s.isClean ∧ s.mergeInnermost.Sound ∧
      (∀ e ∈ s.mergeInnermost.outline, e.2 = .active) ∧ s.mergeInnermost.stack ≠ [] := by
  refine ⟨(mergeInnermost_keeps s).2.2.1, ?_⟩
  by_cases htail : s.outline.tail = []
  · rw [mergeInnermost_eq_self htail]
    exact ⟨hs, hactive, hstack⟩
  · have hcloses := closes_mergeInnermost htail
    refine ⟨hcloses.sound hs, fun e he => ?_, ?_⟩
    · rw [hcloses.outline] at he
      exact hactive e (List.mem_of_mem_drop he)
    · refine (outline_eq_nil _).not.mp ?_
      rw [hcloses.outline, List.drop_one]
      exact htail

/-- With nothing to flush a flush changes nothing. -/
theorem flushed_of_isClean (c : Surroundings) (hs : s.Sound) (h : s.isClean = true) :
    Flushed c s s where
  queue := by rw [c.written_of_isClean h, List.append_nil]
  heard := Hears.of_sent c rfl
  outline := rfl
  created := rfl
  savepoints := rfl
  sound := hs

theorem Flushed.stack_ne_nil {c : Surroundings} (h : Flushed c s t) (hs : s.stack ≠ []) :
    t.stack ≠ [] := by
  refine (outline_eq_nil t).not.mp ?_
  rw [h.outline]
  exact (outline_eq_nil s).not.mpr hs

/-- As many savepoints are inside of one as stand before it. -/
theorem length_inside {id : Nat} {state : TransactionState}
    {inside rest : List (Nat × TransactionState)} (hs : s.outline = inside ++ (id, state) :: rest)
    (hid : id ∉ inside.map Prod.fst) : (s.inside id).length = inside.length := by
  have hinside (e : Nat × TransactionState) (he : e ∈ inside) : (e.1 != id) = true := by
    rw [bne_iff_ne]
    rintro rfl
    exact hid (List.mem_map_of_mem he)
  have houtline : (s.inside id).map (fun t => (t.id, t.state)) =
      s.outline.takeWhile fun e => e.1 != id := by
    rw [outline, List.takeWhile_map]
    rfl
  rw [← List.length_map, houtline, hs, List.takeWhile_append_of_pos hinside,
    List.takeWhile_cons_of_neg (by simp), List.append_nil]

end Session

namespace Surroundings

open Session

variable (c : Surroundings) {s t : Session} {name : String} {id : Nat}

theorem requireActive_of_isActive (h : s.isActive = true) :
    Exec.requireActive s = (.ok (), s) := by
  obtain ⟨r, hrequire, hactive⟩ := Exec.requireActive_apply s
  have hok : r = .ok () := hactive.mpr fun t ht => by
    refine isActive_iff.mp h (t.id, t.state) ?_
    rw [outline, List.head?_map, Option.mem_def.mp ht]
    rfl
  rw [hrequire, hok]

theorem requireActive_of_not_isActive (h : s.isActive = false) :
    ∃ e, Exec.requireActive s = (.error e, s) := by
  obtain ⟨r, hrequire, hactive⟩ := Exec.requireActive_apply s
  cases r with
  | error e => exact ⟨e, hrequire⟩
  | ok u =>
      have hstill : s.isActive = true := isActive_iff.mpr fun e he => by
        rw [outline, List.head?_map] at he
        obtain ⟨t, ht, rfl⟩ := Option.map_eq_some_iff.mp he
        exact hactive.mp rfl t ht
      rw [hstill] at h
      cases h

theorem proceed_of_isActive (h : s.isActive = true) : c.proceed s = c.flush s := by
  rw [proceed, Exec.bind_of_ok (requireActive_of_isActive h)]

theorem proceed_of_not_isActive (h : s.isActive = false) : ∃ e, c.proceed s = (.error e, s) := by
  obtain ⟨e, hrequire⟩ := requireActive_of_not_isActive h
  exact ⟨e, Exec.bind_of_error hrequire _⟩

/-- Nothing goes on in a transaction that a failed flush broke. -/
theorem proceed_of_broken {u : Transaction} {rest : List Transaction} (hs : s.stack = u :: rest)
    (hbroken : u.state = .broken) : c.proceed s = (.error (.session .pendingRollback), s) := by
  have hrequire : Exec.requireActive s = (.error (.session .pendingRollback), s) := by
    unfold Exec.requireActive
    rw [Exec.bind_apply, Exec.get_apply]
    dsimp only
    rw [hs]
    dsimp only
    rw [hbroken]
    rfl
  exact Exec.bind_of_error hrequire _

theorem flush_of_not_isClean_apply (h : s.isClean = false) :
    c.flush s = (do Exec.requireActive; c.attempt : Exec Unit) s.begin := by
  rw [flush_eq, Exec.bind_apply, Exec.get_apply]
  dsimp only
  rw [h, if_neg Bool.false_ne_true, Exec.bind_apply, Exec.modify_apply]

/-- A flush that has something to do goes on in the transaction in progress or a new one. -/
theorem flush_of_not_isClean (h : s.isClean = false) : c.flush s = c.proceed s.begin := by
  rw [c.flush_of_not_isClean_apply h]
  cases hactive : s.begin.isActive with
  | true =>
      rw [c.proceed_of_isActive hactive, c.flush_of_not_isClean_apply (s.isClean_begin.trans h),
        begin_begin]
  | false =>
      obtain ⟨e, hrequire⟩ := requireActive_of_not_isActive hactive
      rw [proceed, Exec.bind_of_error hrequire, Exec.bind_of_error hrequire]

/-- What a flush of a session writes, if it succeeds. -/
def flushWrites (s : Session) : Except Failure (List PendingWrite) :=
  match c.flush s with
  | (.ok _, t) => .ok (c.written s t)
  | (.error e, _) => .error e

theorem flushWrites_of_ok (h : c.flush s = (.ok (), t)) :
    c.flushWrites s = .ok (c.written s t) := by
  rw [flushWrites, h]

theorem flushWrites_of_error {e : Failure} (h : c.flush s = (.error e, t)) :
    c.flushWrites s = .error e := by
  rw [flushWrites, h]

theorem flushWrites_begin (s : Session) : c.flushWrites s.begin = c.flushWrites s := by
  cases hclean : s.isClean with
  | true =>
      rw [c.flushWrites_of_ok (c.flush_of_isClean hclean),
        c.flushWrites_of_ok (c.flush_of_isClean (s.isClean_begin.trans hclean)),
        c.written_of_isClean hclean, c.written_of_isClean (s.isClean_begin.trans hclean)]
  | false =>
      have hsame : c.flush s.begin = c.flush s := by
        rw [c.flush_of_not_isClean hclean, c.flush_of_not_isClean (s.isClean_begin.trans hclean),
          begin_begin]
      rw [flushWrites, flushWrites, hsame]
      rcases c.flush s with ⟨r, t⟩
      cases r with
      | ok u => exact congrArg Except.ok (c.begin_written s t)
      | error e => rfl

theorem proceed_spec {r : Except Failure Unit} (h : c.proceed s = (r, t)) (hs : s.Sound)
    (hstack : s.stack ≠ []) :
    match r with
    | .ok _ => s.isActive = true ∧ Flushed c s t ∧ t.isClean = true
    | .error _ => s.isActive = false ∧ t = s ∨ s.isActive = true ∧ Aborted c s t := by
  cases hactive : s.isActive with
  | false =>
      obtain ⟨e, hproceed⟩ := c.proceed_of_not_isActive hactive
      obtain ⟨rfl, rfl⟩ := Prod.mk.inj (hproceed.symm.trans h)
      exact Or.inl ⟨rfl, rfl⟩
  | true =>
      rw [c.proceed_of_isActive hactive] at h
      cases hclean : s.isClean with
      | true =>
          rw [c.flush_of_isClean hclean] at h
          obtain ⟨rfl, rfl⟩ := Prod.mk.inj h
          exact ⟨rfl, flushed_of_isClean c hs hclean, hclean⟩
      | false =>
          have hflush := h
          rw [c.flush_of_not_isClean_apply hclean, begin_eq_self hstack,
            Exec.bind_of_ok (requireActive_of_isActive hactive)] at h
          have hspec := c.attempt_spec h hs hstack
          cases r with
          | ok u => exact ⟨rfl, hspec, isClean_of_flush hflush⟩
          | error e => exact Or.inr ⟨rfl, hspec⟩

theorem releaseInnermost_apply (s : Session) :
    c.releaseInnermost s = (do c.proceed; modify Session.mergeInnermost : Exec Unit) s := by
  rw [c.releaseInnermost_eq]

/-- Releasing savepoints and going on is going on once and handing everything outwards. -/
theorem forM_release_proceed (ts : List Transaction) (hs : s.Sound) (hstack : s.stack ≠ [])
    (houter : ∀ e ∈ s.outline.tail, e.2 = .active) :
    (do ts.forM (fun _ => c.releaseInnermost); c.proceed : Exec Unit) s =
      (do c.proceed; modify Session.mergeInnermost^[ts.length] : Exec Unit) s := by
  induction ts generalizing s with
  | nil =>
      have hnone : ([] : List Transaction).forM (fun _ => c.releaseInnermost) s = (.ok (), s) := rfl
      rw [Exec.bind_of_ok hnone, Exec.bind_apply]
      rcases c.proceed s with ⟨r, t⟩
      cases r with
      | ok u => rfl
      | error e => rfl
  | cons x ts ih =>
      rw [Exec.forM_cons, bind_assoc, Exec.bind_apply, c.releaseInnermost_apply, Exec.bind_apply,
        Exec.bind_apply]
      rcases hproceed : c.proceed s with ⟨r, t⟩
      have hspec := c.proceed_spec hproceed hs hstack
      cases r with
      | error e => rfl
      | ok u =>
          obtain ⟨hactive, hflushed, hclean⟩ := hspec
          have hall : ∀ e ∈ t.outline, e.2 = .active := by
            rw [hflushed.outline]
            exact active_of_isActive houter hactive
          obtain ⟨hmerged, hsound, hmore, hopen⟩ :=
            merge_ready hall hflushed.sound (hflushed.stack_ne_nil hstack)
          have hnothing : c.proceed t.mergeInnermost = (.ok (), t.mergeInnermost) := by
            rw [c.proceed_of_isActive (isActive_of_active hmore),
              c.flush_of_isClean (hmerged.trans hclean)]
          dsimp only
          rw [Exec.modify_apply]
          dsimp only
          rw [ih hsound hopen fun e he => hmore e (List.mem_of_mem_tail he),
            Exec.bind_of_ok hnothing]
          rfl

theorem proceed_merge_zero :
    (do c.proceed; modify Session.mergeInnermost^[0] : Exec Unit) s = c.proceed s := by
  rw [Exec.bind_apply]
  rcases c.proceed s with ⟨r, t⟩
  cases r with
  | ok u => rfl
  | error e => rfl

/-- What comes of a flush after which several transactions are handed outwards. -/
theorem proceed_merge_spec {n : Nat} {r : Except Failure Unit}
    (h : (do c.proceed; modify Session.mergeInnermost^[n] : Exec Unit) s = (r, t)) (hs : s.Sound)
    (hn : n < s.outline.length) :
    match r with
    | .ok _ => s.isActive = true ∧ ∃ u, c.flush s = (.ok (), u) ∧ Flushed c s u ∧
        Closes n u t ∧ t.queue = u.queue
    | .error e => s.isActive = false ∧ t = s ∨
        s.isActive = true ∧ c.flush s = (.error e, t) ∧ Aborted c s t := by
  have hstack : s.stack ≠ [] := by
    refine (outline_eq_nil s).not.mp (List.length_pos_iff.mp ?_)
    exact Nat.zero_lt_of_lt hn
  rw [Exec.bind_apply] at h
  rcases hproceed : c.proceed s with ⟨q, u⟩
  have hspec := c.proceed_spec hproceed hs hstack
  rw [hproceed] at h
  cases q with
  | error e =>
      obtain ⟨rfl, rfl⟩ := Prod.mk.inj h
      refine hspec.imp_right fun ⟨hactive, haborted⟩ => ⟨hactive, ?_, haborted⟩
      rw [← c.proceed_of_isActive hactive, hproceed]
  | ok _ =>
      obtain ⟨rfl, rfl⟩ := Prod.mk.inj h
      obtain ⟨hactive, hflushed, _⟩ := hspec
      refine ⟨hactive, u, ?_, hflushed, closes_merges (by rw [hflushed.outline]; exact hn)⟩
      rw [← c.proceed_of_isActive hactive, hproceed]

/-- Preparing a commit is one flush, and the root transaction gets all that was released. -/
theorem prepare_apply (hs : s.Sound) (houter : ∀ e ∈ s.outline.tail, e.2 = .active) :
    c.prepare s = (do
      c.proceed
      modify Session.mergeInnermost^[s.begin.outline.length - 1] : Exec Unit) s.begin := by
  have hbegun : ∀ e ∈ s.begin.outline.tail, e.2 = .active := by
    rcases (opens_begin s).cases with ⟨houtline, _⟩ | ⟨_, houtline, _⟩
    · rw [houtline]
      exact houter
    · rw [houtline]
      exact fun e he => absurd he List.not_mem_nil
  have hlength : s.begin.stack.dropLast.length = s.begin.outline.length - 1 := by
    rw [List.length_dropLast, length_outline]
  unfold prepare
  rw [Exec.bind_apply, Exec.modify_apply]
  dsimp only
  rw [Exec.bind_apply, Exec.get_apply]
  dsimp only
  rw [c.forM_release_proceed _ ((stays_begin s).sound hs) s.begin_stack_ne_nil hbegun, hlength]

theorem savepoint_apply (name : String) (s : Session) :
    savepoint name s = (match s.savepoint? name with
      | some id => .ok id
      | none => .error (.missingKey (.text name)), s) := by
  unfold savepoint savepoint?
  rw [Exec.bind_apply, Exec.get_apply]
  dsimp only
  cases s.savepoints.find? fun e => e.1 == name with
  | some e => rfl
  | none => rfl

theorem find?_stack_eq_none : (s.stack.find? fun t => t.id == id) = none ↔ id ∉ s.path := by
  rw [path, List.find?_eq_none, List.mem_map]
  simp

/-- Only the innermost transaction can be broken. -/
theorem stack_of_broken (houter : ∀ e ∈ s.outline.tail, e.2 = .active) {u : Transaction}
    (hu : u ∈ s.stack) (hbroken : u.state = .broken) : ∃ rest, s.stack = u :: rest := by
  cases hstack : s.stack with
  | nil =>
      rw [hstack] at hu
      cases hu
  | cons v rest =>
      rw [hstack] at hu
      rcases List.mem_cons.mp hu with rfl | hu
      · exact ⟨rest, rfl⟩
      · have hactive := houter (u.id, u.state) (by
          rw [outline, hstack]
          exact List.mem_map_of_mem (f := fun t => (t.id, t.state)) hu)
        rw [hbroken] at hactive
        cases hactive

/-- Releasing savepoints one after the other is going on once and handing everything outwards. -/
theorem forM_release_apply (ts : List Transaction) (hs : s.Sound) (hstack : s.stack ≠ [])
    (houter : ∀ e ∈ s.outline.tail, e.2 = .active) :
    (do ts.forM (fun _ => c.releaseInnermost); c.releaseInnermost : Exec Unit) s =
      (do c.proceed; modify Session.mergeInnermost^[ts.length + 1] : Exec Unit) s := by
  have hone := c.forM_release_proceed ts hs hstack houter
  have hsame : (do ts.forM (fun _ => c.releaseInnermost); c.releaseInnermost : Exec Unit) = (do
      (do ts.forM (fun _ => c.releaseInnermost); c.proceed : Exec Unit)
      modify Session.mergeInnermost) := by
    rw [c.releaseInnermost_eq, bind_assoc]
  rw [hsame, Exec.bind_apply, hone, Exec.bind_apply, Exec.bind_apply]
  rcases c.proceed s with ⟨r, t⟩
  cases r with
  | error e => rfl
  | ok _ =>
      rw [Function.iterate_succ']
      rfl

/-- Releasing a savepoint is one flush, and what was released goes to the transaction around
it. -/
theorem release_apply (hs : s.Sound) (houter : ∀ e ∈ s.outline.tail, e.2 = .active)
    (name : String) :
    c.release name s = match s.savepoint? name with
      | none => (.error (.missingKey (.text name)), s)
      | some id =>
          if id ∈ s.path then (do
            c.proceed
            modify Session.mergeInnermost^[(s.inside id).length + 1] : Exec Unit) s
          else (.error (.session .transactionClosed), s) := by
  unfold release
  rw [Exec.bind_apply, savepoint_apply]
  cases s.savepoint? name with
  | none => rfl
  | some id =>
      dsimp only
      rw [Exec.bind_apply, Exec.get_apply]
      dsimp only
      cases hfind : s.stack.find? fun t => t.id == id with
      | none =>
          rw [if_neg (find?_stack_eq_none.mp hfind)]
          rfl
      | some u =>
          have hopen : id ∈ s.path := by
            by_contra hclosed
            rw [find?_stack_eq_none.mpr hclosed] at hfind
            cases hfind
          have hu : u ∈ s.stack := List.mem_of_find?_eq_some hfind
          rw [if_pos hopen]
          dsimp only
          by_cases hbroken : u.state = .broken
          · obtain ⟨rest, hstack⟩ := stack_of_broken houter hu hbroken
            rw [if_pos (by rw [hbroken]; rfl),
              Exec.bind_of_error (c.proceed_of_broken hstack hbroken)]
            rfl
          · rw [if_neg (by simpa using hbroken)]
            exact c.forM_release_apply (s.inside id) hs (List.ne_nil_of_mem hu) houter

theorem rollbackTo_apply (name : String) (s : Session) :
    c.rollbackTo name s = match s.savepoint? name with
      | none => (.error (.missingKey (.text name)), s)
      | some id =>
          if id ∈ s.path then (.ok (), (s.dropInside id).undoInnermost c)
          else (.error (.session .transactionClosed), s) := by
  unfold rollbackTo
  rw [Exec.bind_apply, savepoint_apply]
  cases s.savepoint? name with
  | none => rfl
  | some id =>
      dsimp only
      rw [Exec.bind_apply, Exec.get_apply]
      dsimp only
      by_cases hopen : id ∈ s.path
      · rw [if_pos (List.contains_iff_mem.mpr hopen), if_pos hopen]
        rfl
      · rw [if_neg (fun h => hopen (List.contains_iff_mem.mp h)), if_neg hopen]
        rfl

theorem leave_apply (name : String) (s : Session) :
    c.leave name s = match s.savepoint? name with
      | none => (.error (.missingKey (.text name)), s)
      | some id => (.ok (), match s.stack.find? fun t => t.id == id with
          | none => s
          | some t =>
              if t.state = .broken then (s.dropInside id).pop
              else (s.dropInside id).undoInnermost c) := by
  have hrollback := c.rollbackTo_apply name s
  unfold leave
  rw [Exec.bind_apply, savepoint_apply]
  cases hid : s.savepoint? name with
  | none => rfl
  | some id =>
      rw [hid] at hrollback
      dsimp only at hrollback ⊢
      rw [Exec.bind_apply, Exec.get_apply]
      dsimp only
      cases hfind : s.stack.find? fun t => t.id == id with
      | none => rfl
      | some u =>
          dsimp only
          by_cases hbroken : u.state = .broken
          · rw [if_pos hbroken, if_pos (by rw [hbroken]; rfl)]
            rfl
          · rw [if_neg hbroken, if_neg (by simpa using hbroken), hrollback, if_pos]
            by_contra hclosed
            rw [find?_stack_eq_none.mpr hclosed] at hfind
            cases hfind

/-- A savepoint that is open is left according to its state. -/
theorem leave_of_open {state : TransactionState} {inside rest : List (Nat × TransactionState)}
    (hname : s.savepoint? name = some id) (hs : s.outline = inside ++ (id, state) :: rest)
    (hid : id ∉ inside.map Prod.fst) :
    c.leave name s = (.ok (), if state = .broken then (s.dropInside id).pop
      else (s.dropInside id).undoInnermost c) := by
  obtain ⟨before, outer, hstack, hbefore, houter⟩ := List.map_eq_append_iff.mp hs
  obtain ⟨u, after, rfl, hu, _⟩ := List.map_eq_cons_iff.mp houter
  obtain ⟨huid, rfl⟩ := Prod.mk.inj hu
  have hfind : s.stack.find? (fun t => t.id == id) = some u := by
    have hnone : before.find? (fun t => t.id == id) = none := by
      refine List.find?_eq_none.mpr fun t ht heq => hid ?_
      rw [← hbefore, List.map_map]
      exact List.mem_map.mpr ⟨t, ht, beq_iff_eq.mp heq⟩
    have hheq : (u.id == id) = true := beq_iff_eq.mpr huid
    rw [hstack, List.find?_append, hnone, Option.none_or, List.find?_cons, hheq]
  rw [c.leave_apply, hname]
  dsimp only
  rw [hfind]

theorem rollback_nil (hs : s.stack = []) : c.rollback s = (.ok (), s) := by
  unfold rollback
  rw [Exec.bind_apply, Exec.get_apply]
  dsimp only
  rw [hs]
  rfl

theorem rollback_cons {u : Transaction} {rest : List Transaction} (hs : s.stack = u :: rest) :
    c.rollback s = if u.state = .committed then (.error (.session .invalidRequest), s)
      else (.ok (), s.undoAll c) := by
  unfold rollback
  rw [Exec.bind_apply, Exec.get_apply]
  dsimp only
  rw [hs]
  dsimp only
  by_cases hcommitted : u.state = .committed
  · rw [if_pos hcommitted, if_pos (by rw [hcommitted]; rfl)]
    rfl
  · rw [if_neg hcommitted, if_neg (by simpa using hcommitted)]
    rfl

end Surroundings

end Typeahead
