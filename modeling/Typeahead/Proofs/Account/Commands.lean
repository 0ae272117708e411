import Typeahead.Proofs.Account.Tracking
import Typeahead.Proofs.Journal.Committing

/-!
# Commands in the account

The account after a command tracks the session after it, `Account.Tracks.perform`, unless a
savepoint that a failed flush broke is left, or a commit meets a write that the client refuses.
-/

namespace Typeahead

namespace Account

open Session

variable {a : Account} {c : Surroundings} {s t : Session} {h : History}

/-- An open transaction among the others, by its place. -/
theorem exists_outline_at (hdescending : s.path.Pairwise (· > ·)) {n id : Nat}
    (hid : s.path[n]? = some id) : ∃ inside state rest, s.outline = inside ++ (id, state) :: rest ∧
      id ∉ inside.map Prod.fst ∧ inside.length = n := by
  rw [path_eq, List.getElem?_map] at hid
  obtain ⟨⟨_, state⟩, he, rfl⟩ := Option.map_eq_some_iff.mp hid
  obtain ⟨hn, hget⟩ := List.getElem?_eq_some_iff.mp he
  have hsplit : s.outline = s.outline.take n ++ s.outline[n] :: s.outline.drop (n + 1) := by
    rw [← List.drop_eq_getElem_cons, List.take_append_drop]
  rw [hget] at hsplit
  refine ⟨_, state, _, hsplit, fun hmem => ?_, List.length_take_of_le hn.le⟩
  rw [path_eq, hsplit, List.map_append, List.map_cons] at hdescending
  exact (List.pairwise_append.mp hdescending).2.2 _ hmem _ List.mem_cons_self |>.ne rfl

namespace Tracks

/-- A name stands for a savepoint of the account exactly if it does so in the session. -/
theorem depth?_cases (T : a.Tracks s) (L : Ledger s h) (name : String) :
    a.depth? name = none ∧ (∀ id, s.savepoint? name = some id → id ∉ s.path) ∨
      ∃ n id, a.depth? name = some (n + 1) ∧ n < a.blocks.length ∧ s.savepoint? name = some id ∧
        s.path[n]? = some id := by
  have hlength {n id : Nat} (hid : s.path[n]? = some id) :
      s.path.length = a.blocks.length + 1 := by
    rw [path_eq, List.length_map]
    refine T.length_outline fun hnone => ?_
    rw [path_eq, hnone] at hid
    cases hid
  unfold depth?
  cases hfind : a.blocks.findIdx? fun b => b.name == some name with
  | none =>
      refine Or.inl ⟨rfl, fun id hname hopen => ?_⟩
      obtain ⟨n, hid⟩ := List.mem_iff_getElem?.mp hopen
      have hn := (List.getElem?_eq_some_iff.mp hid).1
      rw [hlength hid] at hn
      rcases Nat.lt_succ_iff_lt_or_eq.mp hn with hn | rfl
      · have hb := List.getElem?_eq_getElem hn
        have hnamed := (T.named n _ id hb hid name).mpr hname
        have hnone := List.findIdx?_eq_none_iff.mp hfind _ (List.getElem_mem hn)
        rw [hnamed, beq_self_eq_true] at hnone
        cases hnone
      · -- the root transaction has no name
        obtain ⟨e, he, rfl⟩ := Option.map_eq_some_iff.mp hname
        refine (L.named e (List.mem_of_find?_eq_some he)).2 ?_
        rw [List.getLast?_eq_getElem?, hlength hid]
        exact hid
  | some n =>
      obtain ⟨hn, hb, _⟩ := List.findIdx?_eq_some_iff_getElem.mp hfind
      have hlt : n < s.path.length := by
        rw [path_eq, List.length_map]
        rcases T.length with hlength | ⟨_, hblocks, _⟩
        · omega
        · rw [hblocks] at hn
          cases hn
      have hid := List.getElem?_eq_getElem hlt
      refine Or.inr ⟨n, _, rfl, hn, ?_, hid⟩
      exact (T.named n _ _ (List.getElem?_eq_getElem hn) hid name).mp (beq_iff_eq.mp hb)

/-- A flush that fails, whatever was to come after it. -/
theorem flush_error (T : a.Tracks s) (L : Ledger s h) (hcatalog : c.catalog.OnCommit)
    (hs : s.outline ≠ []) {n : Nat} (hn : n < s.outline.length) {e : Failure}
    (hproceed : (do c.proceed; modify mergeInnermost^[n] : Exec Unit) s = (.error e, t))
    (next : Account → Account) :
    (a.broken = true ∨ c.flushWrites s = .error e) ∧
      (a.flush (c.flushWrites s) next).Tracks t := by
  have hactive := T.isActive
  rcases c.proceed_merge_spec hproceed L.sound hn with ⟨hinactive, rfl⟩ | ⟨hgoes, hflush, haborted⟩
  · have hbroken : a.broken = true := by
      rw [hactive] at hinactive
      simpa using hinactive
    rw [a.flush_of_broken hbroken]
    exact ⟨Or.inl hbroken, T⟩
  · have hwhole : a.broken = false := by
      rw [hactive] at hgoes
      simpa using hgoes
    rw [c.flushWrites_of_error hflush, a.flush_of_error hwhole]
    exact ⟨Or.inr rfl, T.abort hwhole hs haborted hcatalog⟩

/-- A flush that succeeds, before savepoints are released. -/
theorem flush_ok (T : a.Tracks s) (L : Ledger s h) (hcatalog : c.catalog.OnCommit)
    (hs : s.outline ≠ []) {n : Nat} (hn : n < s.outline.length)
    (hproceed : (do c.proceed; modify mergeInnermost^[n] : Exec Unit) s = (.ok (), t)) :
    ∃ ws u, a.broken = false ∧ c.flushWrites s = .ok ws ∧ (a.note ws).Tracks u ∧
      u.outline = s.outline ∧ (∀ e ∈ u.outline, e.2 = .active) ∧ Closes n u t ∧
      t.queue = u.queue := by
  obtain ⟨hgoes, u, hflush, hflushed, hcloses, hqueue⟩ :=
    c.proceed_merge_spec hproceed L.sound hn
  have hwhole : a.broken = false := by
    rw [T.isActive] at hgoes
    simpa using hgoes
  refine ⟨_, u, hwhole, c.flushWrites_of_ok hflush, T.note hwhole hs hflushed hcatalog,
    hflushed.outline, ?_, hcloses, hqueue⟩
  rw [hflushed.outline]
  exact active_of_isActive L.outer hgoes

/-- A flush, after which savepoints are released. -/
theorem proceed (T : a.Tracks s) (L : Ledger s h) (hcatalog : c.catalog.OnCommit)
    (hs : s.outline ≠ []) {n : Nat} (hn : n ≤ a.blocks.length) {r : Except Failure Unit}
    (hproceed : (do c.proceed; modify mergeInnermost^[n] : Exec Unit) s = (r, t)) :
    (a.flush (c.flushWrites s) (Account.merge n)).Tracks t := by
  have hlt : n < s.outline.length := by
    rw [T.length_outline hs]
    exact Nat.lt_succ_of_le hn
  cases r with
  | error e => exact (T.flush_error L hcatalog hs hlt hproceed _).2
  | ok _ =>
      obtain ⟨ws, u, hwhole, hwrites, hnoted, houtline, hactive, hcloses, hqueue⟩ :=
        T.flush_ok L hcatalog hs hlt hproceed
      rw [hwrites, a.flush_of_ok ws hwhole]
      refine hnoted.merge ((a.note_broken ws).trans hwhole) (houtline ▸ hs) ?_ hactive hcloses
        hqueue
      exact (put_blocks_length a ws).symm ▸ hn

/-- What was flushed does not matter. -/
theorem of_flushes (T : a.Tracks s) (flushes : List (List PendingWrite)) :
    Tracks { a with flushes } s :=
  ⟨T.writes, T.queue, T.head, T.length, T.named, T.around⟩

theorem begun (T : a.Tracks s) (L : Ledger s h) :
    a.Tracks s.begin ∧ Ledger s.begin h ∧ s.begin.outline ≠ [] := by
  refine ⟨T.of_idles (idles_begin s), L.idles (idles_begin s), ?_⟩
  exact List.length_pos_iff.mp (Surroundings.begin_outline_pos s)

/-- Going on in a root transaction that is opened if there is none. -/
theorem proceed_begin (T : a.Tracks s) (L : Ledger s h) (hcatalog : c.catalog.OnCommit) :
    (a.flush (c.flushWrites s) id).Tracks (c.proceed s.begin).2 := by
  obtain ⟨T, L, hs⟩ := T.begun L
  have hsame : a.flush (c.flushWrites s.begin) (Account.merge 0) =
      a.flush (c.flushWrites s.begin) id := by
    rw [show Account.merge 0 = id from funext merge_zero]
  rw [← c.flushWrites_begin, ← hsame, ← c.proceed_merge_zero]
  exact T.proceed L hcatalog hs (Nat.zero_le _) rfl

theorem flush (T : a.Tracks s) (L : Ledger s h) (hcatalog : c.catalog.OnCommit) :
    (a.flush (c.flushWrites s) id).Tracks (c.flush s).2 := by
  cases hclean : s.isClean with
  | true =>
      have hflush := c.flush_of_isClean hclean
      rw [hflush, c.flushWrites_of_ok hflush, c.written_of_isClean hclean]
      cases hbroken : a.broken with
      | true =>
          rw [a.flush_of_broken hbroken]
          exact T
      | false =>
          rw [a.flush_of_ok [] hbroken, Account.note, put_nil]
          exact T.of_flushes _
  | false =>
      rw [c.flush_of_not_isClean hclean]
      exact T.proceed_begin L hcatalog

theorem beginNested (T : a.Tracks s) (L : Ledger s h) (hcatalog : c.catalog.OnCommit)
    (name : String) :
    (a.flush (c.flushWrites s) (Account.nest name)).Tracks (c.beginNested name s).2 := by
  obtain ⟨T', L', hs⟩ := T.begun L
  have hpos := Surroundings.begin_outline_pos s
  have hkept := (c.kept_proceed_begin L).ledger
  rw [← c.proceed_merge_zero] at hkept
  unfold Surroundings.beginNested
  rw [Exec.bind_apply, Exec.modify_apply]
  dsimp only
  rw [Exec.bind_apply, ← c.proceed_merge_zero, ← c.flushWrites_begin]
  rcases hproceed : (do c.proceed; modify mergeInnermost^[0] : Exec Unit) s.begin with ⟨r, t⟩
  rw [hproceed] at hkept
  cases r with
  | error e => exact (T'.flush_error L' hcatalog hs hpos hproceed _).2
  | ok _ =>
      obtain ⟨ws, u, hwhole, hwrites, hnoted, houtline, hactive, hcloses, hqueue⟩ :=
        T'.flush_ok L' hcatalog hs hpos hproceed
      rw [hwrites, a.flush_of_ok ws hwhole]
      have hwhole : (a.note ws).broken = false := (a.note_broken ws).trans hwhole
      have hmerged := hnoted.merge hwhole (houtline ▸ hs) (Nat.zero_le _) hactive hcloses hqueue
      rw [merge_zero] at hmerged
      refine hmerged.nest hkept hwhole ?_ name
      rw [hcloses.outline, List.drop_zero, houtline]
      exact hs

/-- A savepoint of the account in the session. -/
theorem exists_inside (T : a.Tracks s) (L : Ledger s h) {n id : Nat} (hn : n < a.blocks.length)
    (hid : s.path[n]? = some id) : ∃ inside state rest,
      s.outline = inside ++ (id, state) :: rest ∧ id ∉ inside.map Prod.fst ∧ inside.length = n ∧
        rest ≠ [] ∧ (state = .broken ↔ a.broken = true ∧ n = 0) := by
  obtain ⟨inside, state, rest, houtline, hfirst, rfl⟩ := exists_outline_at L.descending hid
  have hlength := T.length_outline (by rw [houtline]; simp)
  refine ⟨inside, state, rest, houtline, hfirst, rfl, ?_, ?_⟩
  · rintro rfl
    rw [houtline, List.length_append, List.length_singleton] at hlength
    omega
  · cases hinside : inside with
    | nil =>
        rw [hinside] at houtline
        have hstate : state = if a.broken then .broken else .active :=
          T.head (id, state) (by rw [houtline]; rfl)
        rw [hstate]
        cases a.broken with
        | false => simp
        | true => simp
    | cons e before =>
        have hactive : state = .active :=
          L.outer (id, state) (by rw [houtline, hinside]; simp)
        simp [hactive]

theorem release (T : a.Tracks s) (L : Ledger s h) (hcatalog : c.catalog.OnCommit)
    (name : String) :
    (a.upTo name fun n => Account.flush (c.flushWrites s) (Account.merge n)).Tracks
      (c.release name s).2 := by
  rw [c.release_apply L.sound L.outer]
  unfold upTo
  rcases T.depth?_cases L name with ⟨hdepth, hclosed⟩ | ⟨n, id, hdepth, hn, hname, hid⟩
  · rw [hdepth]
    cases hname : s.savepoint? name with
    | none => exact T
    | some id =>
        dsimp only
        rw [if_neg (hclosed id hname)]
        exact T
  · obtain ⟨inside, state, rest, houtline, hfirst, rfl, _⟩ := T.exists_inside L hn hid
    rw [hdepth, hname]
    dsimp only
    rw [if_pos (List.mem_of_getElem? hid), length_inside houtline hfirst]
    exact T.proceed L hcatalog (by rw [houtline]; simp) hn rfl

theorem rollbackTo (T : a.Tracks s) (L : Ledger s h) (name : String) :
    (a.upTo name Account.drop).Tracks (c.rollbackTo name s).2 := by
  rw [c.rollbackTo_apply]
  unfold upTo
  rcases T.depth?_cases L name with ⟨hdepth, hclosed⟩ | ⟨n, id, hdepth, hn, hname, hid⟩
  · rw [hdepth]
    cases hname : s.savepoint? name with
    | none => exact T
    | some id =>
        dsimp only
        rw [if_neg (hclosed id hname)]
        exact T
  · obtain ⟨inside, state, rest, houtline, hfirst, rfl, hrest, _⟩ := T.exists_inside L hn hid
    obtain ⟨hcloses, hqueue⟩ := closes_undoTo c houtline hfirst
    rw [if_neg hrest] at hqueue
    rw [hdepth, hname]
    dsimp only
    rw [if_pos (List.mem_of_getElem? hid)]
    exact T.undo hn hid L.outer hcloses hqueue

/-- Leaving a savepoint rolls it back, unless a failed flush broke it. -/
theorem leave (T : a.Tracks s) (L : Ledger s h) (name : String)
    (hleft : (a.upTo name Account.leave).left = false) :
    (a.upTo name Account.leave).Tracks (c.leave name s).2 := by
  unfold upTo at hleft ⊢
  rcases T.depth?_cases L name with ⟨hdepth, hclosed⟩ | ⟨n, id, hdepth, hn, hname, hid⟩
  · rw [hdepth, c.leave_apply]
    cases hname : s.savepoint? name with
    | none => exact T
    | some id =>
        dsimp only
        rw [Surroundings.find?_stack_eq_none.mpr (hclosed id hname)]
        exact T
  · obtain ⟨inside, state, rest, houtline, hfirst, rfl, hrest, hbroken⟩ := T.exists_inside L hn hid
    obtain ⟨hcloses, hqueue⟩ := closes_undoTo c houtline hfirst
    rw [if_neg hrest] at hqueue
    rw [hdepth] at hleft ⊢
    dsimp only at hleft ⊢
    have hwhole : ¬(a.broken = true ∧ inside.length + 1 = 1) := by
      intro hgone
      rw [Account.leave, if_pos hgone] at hleft
      cases hleft
    have hstate : state ≠ .broken := fun hb => by
      obtain ⟨hb, hzero⟩ := hbroken.mp hb
      exact hwhole ⟨hb, by rw [hzero]⟩
    rw [Account.leave, if_neg hwhole, c.leave_of_open hname houtline hfirst, if_neg hstate]
    exact T.undo hn hid L.outer hcloses hqueue

theorem rollback (T : a.Tracks s) : a.clear.Tracks (c.rollback s).2 := by
  cases hstack : s.stack with
  | nil =>
      have houtline : s.outline = [] := (outline_eq_nil s).mpr hstack
      rw [c.rollback_nil hstack]
      refine T.clear houtline ?_ rfl
      rcases T.length with hlength | ⟨_, hblocks, hbase, hwhole⟩
      · rw [houtline] at hlength
        cases hlength
      · rw [T.queue_eq hwhole, pending, hblocks, hbase]
        rfl
  | cons u rest =>
      have hstate : u.state ≠ .committed := by
        have hhead : u.state = if a.broken then .broken else .active :=
          T.head (u.id, u.state) (by rw [outline, hstack]; rfl)
        rw [hhead]
        cases a.broken with
        | false => decide
        | true => decide
      obtain ⟨hcloses, hqueue⟩ := closes_undoAll c (s := s) (by rw [hstack]; simp)
      rw [c.rollback_cons hstack, if_neg hstate]
      exact T.clear (by rw [hcloses.outline, List.drop_length]) hqueue hcloses.writes

theorem close (T : a.Tracks s) : a.clear.Tracks s.close := by
  obtain ⟨hcloses, hqueue⟩ := closes_close s
  exact T.clear (by rw [hcloses.outline, List.drop_length]) hqueue hcloses.writes

/-- A commit delivers what is pending, unless it cannot be prepared. -/
theorem commit (T : a.Tracks s) (L : Ledger s h) (hcatalog : c.catalog.OnCommit)
    (haccepted : a.broken = false → ∀ ws, c.flushWrites s = .ok ws →
      ∀ w ∈ a.pending ++ ws, w.Accepted c.backend) :
    (a.flush (c.flushWrites s) (Account.commit c.enabled)).Tracks (c.commit s).2 ∧
      ((∃ ws, a.broken = false ∧ c.flushWrites s = .ok ws ∧ (c.commit s).1 = .ok ()) ∨
        ∃ e, (a.broken = true ∨ c.flushWrites s = .error e) ∧ (c.commit s).1 = .error e) := by
  obtain ⟨T', L', hs⟩ := T.begun L
  have hn : s.begin.outline.length - 1 < s.begin.outline.length :=
    Nat.sub_one_lt (Surroundings.begin_outline_pos s).ne'
  have happly := c.prepare_apply L.sound L.outer
  rw [← c.flushWrites_begin] at haccepted ⊢
  rcases Surroundings.commit_cases (c := c) L with
    ⟨e, t, hprepare, hcommit, _⟩ |
    ⟨u, root, _, outcome, t, sent, hprepare, _, _, ⟨ws, hwrites, hqueue⟩, _, hsettled, hcommit, _⟩
  · rw [hcommit]
    rw [happly] at hprepare
    obtain ⟨hfails, hkept⟩ := T'.flush_error L' hcatalog hs hn hprepare (Account.commit c.enabled)
    exact ⟨hkept, Or.inr ⟨e, hfails, rfl⟩⟩
  · rw [hcommit]
    rw [happly] at hprepare
    rw [← c.flushWrites_begin] at hwrites
    obtain ⟨vs, v, hwhole, hvs, hnoted, _, _, hcloses, _⟩ :=
      T'.flush_ok L' hcatalog hs hn hprepare
    obtain rfl : ws = vs := Except.ok.inj (hwrites.symm.trans hvs)
    have hpending : u.queue = a.pending ++ ws := by rw [hqueue, T.queue_eq hwhole]
    obtain rfl : outcome = .ok () := hsettled.accepted (hpending ▸ haccepted hwhole ws hwrites)
    refine ⟨?_, Or.inl ⟨ws, hwhole, hwrites, rfl⟩⟩
    rw [hwrites, a.flush_of_ok ws hwhole]
    have hcleared : (a.note ws).clear.Tracks { t with sent := u.sent } :=
      hnoted.clear hsettled.outline hsettled.queue hcloses.writes
    refine ⟨?_, hcleared.queue, hcleared.head, hcleared.length, hcleared.named, hcleared.around⟩
    have hsent : sent = if c.enabled then a.pending ++ ws else [] := by
      cases henabled : c.enabled with
      | false => exact hsettled.disabled henabled
      | true => exact (hsettled.enabled henabled rfl).trans hpending
    rw [hsettled.writes, hcloses.writes, hnoted.writes, hsent, ← List.map_append,
      a.commit_sent ws c.enabled, note_sent]

/-- What any command does. -/
theorem perform (T : a.Tracks s) (L : Ledger s h) (hcatalog : c.catalog.OnCommit)
    (command : Command)
    (haccepted : command = .commit → a.broken = false → ∀ ws, c.flushWrites s = .ok ws →
      ∀ w ∈ a.pending ++ ws, w.Accepted c.backend)
    (hleft : (a.after (c.flushWrites s) c.enabled command).left = false) :
    (a.after (c.flushWrites s) c.enabled command).Tracks (c.perform command s).2 := by
  have hdone {a' : Account} {x : Exec Unit} (hx : a'.Tracks (x s).2) :
      a'.Tracks ((do x; return none : Exec (Option Page)) s).2 := by
    rw [Exec.bind_pure_apply]
    exact hx
  have hidle {x : Exec Unit} (hx : Exec.Follows Idles x) :
      a.Tracks ((do x; return none : Exec (Option Page)) s).2 :=
    hdone (T.of_idles (hx s))
  cases command with
  | flush => exact hdone (T.flush L hcatalog)
  | beginNested name => exact hdone (T.beginNested L hcatalog name)
  | release name => exact hdone (T.release L hcatalog name)
  | commit => exact hdone (T.commit L hcatalog (haccepted rfl)).1
  | rollbackTo name => exact hdone (T.rollbackTo L name)
  | leave name => exact hdone (T.leave L name hleft)
  | rollback => exact hdone T.rollback
  | close => exact hdone T.close
  | add object entity values => exact hidle (c.follows_add object entity values)
  | readd object => exact hidle (c.follows_readd object)
  | set object attr value => exact hidle (c.follows_set object attr value)
  | delete object => exact hidle (c.follows_delete object)
  | search entity text options =>
      exact T.of_idles (Exec.bind_follows (R := Idles) (c.follows_search entity text options s)
        fun page t _ => Idles.refl t)

end Tracks

end Account

end Typeahead
