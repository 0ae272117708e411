import Typeahead.Proofs.Journal.Endings

/-!
# Commands in the ledger

Every command but a commit keeps the ledger with what is noted of it, and the only document writes
that it sends are those of listeners, `Surroundings.kept_perform`.
-/

namespace Typeahead

namespace Surroundings

open Session

variable (c : Surroundings) {s : Session} {h : History}

/-- A session with a root transaction is one to go on in. -/
theorem begin_outline_pos (s : Session) : 0 < s.begin.outline.length := by
  rw [length_outline]
  exact List.length_pos_iff.mpr s.begin_stack_ne_nil

theorem kept_begin (L : Ledger s h) : Kept c s s.begin h [] :=
  Kept.of_idles L (idles_begin s)

/-- Going on in a root transaction that is opened if there is none. -/
theorem kept_proceed_begin (L : Ledger s h) :
    Kept c s (c.proceed s.begin).2 h (c.flushEvents s.begin []) := by
  have hkept := kept_proceed (n := 0) (L.idles (idles_begin s)) (begin_outline_pos s)
    c.proceed_merge_zero
  rw [List.take_zero] at hkept
  exact (c.kept_begin L).trans (by rw [List.append_nil]; exact hkept)

theorem kept_flush (L : Ledger s h) : Kept c s (c.flush s).2 h (c.events s .flush) := by
  unfold events
  dsimp only
  cases hclean : s.isClean with
  | true =>
      rw [c.flush_of_isClean hclean, if_pos rfl]
      exact Kept.refl c L
  | false =>
      rw [c.flush_of_not_isClean hclean, if_neg Bool.false_ne_true]
      exact c.kept_proceed_begin L

theorem kept_beginNested (L : Ledger s h) (name : String) :
    Kept c s (c.beginNested name s).2 h (c.events s (.beginNested name)) := by
  have hkept := c.kept_proceed_begin L
  have hevents : c.events s (.beginNested name) = c.flushEvents s.begin [] := rfl
  rw [hevents]
  unfold beginNested
  rw [Exec.bind_apply, Exec.modify_apply]
  dsimp only
  rw [Exec.bind_apply]
  rcases hproceed : c.proceed s.begin with ⟨r, t⟩
  rw [hproceed] at hkept
  dsimp only at hkept
  cases r with
  | error e => exact hkept
  | ok u =>
      dsimp only
      rw [Exec.modify_apply]
      have hbegun := L.idles (idles_begin s)
      obtain ⟨hactive, hflushed, _⟩ := c.proceed_spec hproceed hbegun.sound s.begin_stack_ne_nil
      have hall : ∀ e ∈ t.outline, e.2 = .active := by
        rw [hflushed.outline]
        exact active_of_isActive hbegun.outer hactive
      have hpath : t.path ≠ [] := by
        rw [path_eq, hflushed.outline, ← path_eq]
        simpa [path] using s.begin_stack_ne_nil
      have hpushed := hkept.ledger.push
        (t := { t.push with savepoints := (name, t.created) :: t.savepoints }) rfl rfl rfl
        (hkept.ledger.sound.of_objects_eq rfl) hall fun e he => by
          rcases List.mem_cons.mp he with rfl | he
          · exact Or.inr ⟨rfl, hpath⟩
          · exact Or.inl he
      have hopened : Kept c t { t.push with savepoints := (name, t.created) :: t.savepoints }
          (h ++ c.flushEvents s.begin []) [] := Kept.of_ledger rfl hpushed
      have hboth := hkept.trans hopened
      rw [List.append_nil] at hboth
      exact hboth

theorem kept_release (L : Ledger s h) (name : String) :
    Kept c s (c.release name s).2 h (c.events s (.release name)) := by
  rw [c.release_apply L.sound L.outer]
  unfold events
  dsimp only
  cases hname : s.savepoint? name with
  | none =>
      rw [openAs?, hname]
      exact Kept.refl c L
  | some id =>
      dsimp only
      by_cases hopen : id ∈ s.path
      · obtain ⟨inside, state, rest, hs, hfirst⟩ := exists_outline_eq hopen
        have hrest : rest ≠ [] := by
          -- a savepoint is not the root transaction
          rintro rfl
          obtain ⟨e, hfind, rfl⟩ := Option.map_eq_some_iff.mp hname
          refine (L.named e (List.mem_of_find?_eq_some hfind)).2 ?_
          rw [path_eq, hs, List.map_append]
          simp
        have hn : (s.inside id).length + 1 < s.outline.length := by
          rw [length_inside hs hfirst, hs, List.length_append, List.length_cons]
          have hpos := List.length_pos_iff.mpr hrest
          omega
        rw [openAs?_eq_some.mpr ⟨hname, hopen⟩, if_pos hopen]
        dsimp only
        rw [upTo_eq_take hs hfirst, ← length_inside hs hfirst]
        exact kept_proceed L hn rfl
      · have hclosed : s.openAs? name = none := by
          rw [openAs?, hname]
          simpa using hopen
        rw [hclosed, if_neg hopen]
        exact Kept.refl c L

theorem kept_rollbackTo (L : Ledger s h) (name : String) :
    Kept c s (c.rollbackTo name s).2 h (c.events s (.rollbackTo name)) := by
  rw [c.rollbackTo_apply]
  unfold events
  dsimp only
  cases hname : s.savepoint? name with
  | none =>
      rw [openAs?, hname]
      exact Kept.refl c L
  | some id =>
      dsimp only
      by_cases hopen : id ∈ s.path
      · obtain ⟨inside, state, rest, hs, hfirst⟩ := exists_outline_eq hopen
        rw [openAs?_eq_some.mpr ⟨hname, hopen⟩, if_pos hopen]
        exact Kept.of_fates (by decide) (closes_undoTo c hs hfirst).1.writes (L.undone c hopen)
      · have hclosed : s.openAs? name = none := by
          rw [openAs?, hname]
          simpa using hopen
        rw [hclosed, if_neg hopen]
        exact Kept.refl c L

theorem kept_leave (L : Ledger s h) (name : String) :
    Kept c s (c.leave name s).2 h (c.events s (.leave name)) := by
  unfold events
  dsimp only
  cases hname : s.savepoint? name with
  | none =>
      rw [c.leave_apply, hname, openAs?, hname]
      exact Kept.refl c L
  | some id =>
      by_cases hopen : id ∈ s.path
      · obtain ⟨inside, state, rest, hs, hfirst⟩ := exists_outline_eq hopen
        have hstate : (id, .broken) ∈ s.outline ↔ state = .broken := by
          have hmem : (id, state) ∈ s.outline := by
            rw [hs]
            exact List.mem_append_right _ List.mem_cons_self
          refine ⟨fun hbroken => ?_, fun hbroken => hbroken ▸ hmem⟩
          have hnodup : (s.outline.map Prod.fst).Nodup := by
            rw [← path_eq]
            exact L.descending.imp fun hlt => hlt.ne'
          exact (congrArg Prod.snd (List.inj_on_of_nodup_map hnodup hbroken hmem rfl)).symm
        rw [openAs?_eq_some.mpr ⟨hname, hopen⟩, c.leave_of_open hname hs hfirst]
        dsimp only
        by_cases hbroken : state = .broken
        · have hleft := hstate.mpr hbroken
          rw [if_pos hbroken, if_pos hleft]
          exact Kept.of_fates (by decide) (closes_leave hs hfirst).1.writes (L.leaves hleft)
        · rw [if_neg hbroken, if_neg fun h => hbroken (hstate.mp h)]
          exact Kept.of_fates (by decide) (closes_undoTo c hs hfirst).1.writes (L.undone c hopen)
      · have hclosed : s.openAs? name = none := by
          rw [openAs?, hname]
          simpa using hopen
        rw [c.leave_apply, hname, hclosed]
        dsimp only
        rw [find?_stack_eq_none.mpr hopen]
        exact Kept.refl c L

theorem kept_rollback (L : Ledger s h) : Kept c s (c.rollback s).2 h (c.events s .rollback) := by
  unfold events
  dsimp only
  cases hstack : s.stack with
  | nil =>
      rw [c.rollback_nil hstack, outline, path, hstack]
      exact Kept.refl c L
  | cons u rest =>
      have hopen : s.stack ≠ [] := by
        rw [hstack]
        exact List.cons_ne_nil u rest
      have houtline : s.outline = (u.id, u.state) :: rest.map fun t => (t.id, t.state) := by
        rw [outline, hstack, List.map_cons]
      rw [c.rollback_cons hstack, houtline]
      have hundone : Kept c s (s.undoAll c) h (History.fates .undone s.path) :=
        Kept.of_fates (by decide) (closes_undoAll c hopen).1.writes (L.undoneAll c hopen)
      cases hstate : u.state with
      | committed =>
          rw [if_pos rfl]
          exact Kept.refl c L
      | active =>
          rw [if_neg (by decide)]
          exact hundone
      | broken =>
          rw [if_neg (by decide)]
          exact hundone

theorem kept_close (L : Ledger s h) : Kept c s s.close h (c.events s .close) := by
  obtain ⟨hcloses, hqueue⟩ := closes_close s
  refine Kept.of_fates (by decide) hcloses.writes ?_
  refine L.close (by rw [hcloses.outline, List.drop_length]) hcloses.created hcloses.savepoints
    (hcloses.sound L.sound) hqueue (fun id hid => ?_) fun id hid hb => ?_
  · obtain ⟨e, he, rfl⟩ := List.mem_map.mp hid
    exact Ledger.mem_path (List.mem_filter.mp he).1
  · obtain ⟨e, he, rfl⟩ := Ledger.exists_of_mem_path hid
    refine List.mem_map_of_mem (List.mem_filter.mpr ⟨he, ?_⟩)
    rw [(L.broken e he).mpr hb]
    rfl

/-- Every command but a commit keeps the ledger, and only listeners send document writes. -/
theorem kept_perform (L : Ledger s h) {command : Command} (hcommand : command ≠ .commit) :
    Kept c s (c.perform command s).2 h (c.events s command) := by
  have hdone {x : Exec Unit} {events : History} (hx : Kept c s (x s).2 h events) :
      Kept c s ((do x; return none : Exec (Option Page)) s).2 h events := by
    rw [Exec.bind_pure_apply]
    exact hx
  have hidle {x : Exec Unit} (hx : Exec.Follows Idles x) :
      Kept c s ((do x; return none : Exec (Option Page)) s).2 h [] :=
    hdone (Kept.of_idles L (hx s))
  cases command with
  | commit => exact absurd rfl hcommand
  | flush => exact hdone (c.kept_flush L)
  | rollback => exact hdone (c.kept_rollback L)
  | close => exact hdone (c.kept_close L)
  | beginNested name => exact hdone (c.kept_beginNested L name)
  | release name => exact hdone (c.kept_release L name)
  | rollbackTo name => exact hdone (c.kept_rollbackTo L name)
  | leave name => exact hdone (c.kept_leave L name)
  | add object entity values => exact hidle (c.follows_add object entity values)
  | readd object => exact hidle (c.follows_readd object)
  | set object attr value => exact hidle (c.follows_set object attr value)
  | delete object => exact hidle (c.follows_delete object)
  | search entity text options =>
      refine Kept.of_idles L (Exec.bind_follows (R := Idles)
        (c.follows_search entity text options s) fun page t _ => Idles.refl t)

end Surroundings

end Typeahead
