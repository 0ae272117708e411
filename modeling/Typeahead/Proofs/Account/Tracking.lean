import Typeahead.Proofs.Account.Account
import Typeahead.Proofs.Journal.Committing

/-!
# Sessions and their accounts

An account tracks a session, `Account.Tracks`: what waits in the queue are the pending changes, and
without those that hang on an open savepoint it would be those of what is around it.  Flushes,
releases and rollbacks keep to this.
-/

namespace Typeahead

namespace Account

open Session

/-- An account says what is in the queue of a session, level by level, and what was sent.  Besides,
the queue has what a failed flush captured, as long as the transaction that it broke is open. -/
structure Tracks (a : Account) (s : Session) : Prop where
  writes : s.writes = a.sent.map PendingWrite.call
  queue : ∃ torn, s.queue = a.pending ++ torn ∧ (a.broken = false → torn = []) ∧
    ∀ w ∈ torn, ∀ id ∈ s.path, id ∈ w.path
  head : ∀ e ∈ s.outline.head?, e.2 = if a.broken then .broken else .active
  length : s.outline.length = a.blocks.length + 1 ∨
    s.outline = [] ∧ a.blocks = [] ∧ a.base = [] ∧ a.broken = false
  named : ∀ (n : Nat) (b : Block) (id : Nat), a.blocks[n]? = some b → s.path[n]? = some id →
    ∀ name, b.name = some name ↔ s.savepoint? name = some id
  around : ∀ (n id : Nat), n < a.blocks.length → s.path[n]? = some id →
    s.queue.filter (fun w => !waitsFor id w) = a.base ++ changes (a.blocks.drop (n + 1))

theorem tracks_empty : empty.Tracks .empty where
  writes := rfl
  queue := ⟨[], rfl, fun _ => rfl, List.forall_mem_nil _⟩
  head _ he := nomatch he
  length := Or.inr ⟨rfl, rfl, rfl, rfl⟩
  named _ _ _ hb := nomatch hb
  around _ _ hn := absurd hn (Nat.not_lt_zero _)

variable {a : Account} {c : Surroundings} {s t : Session} {h : History}

/-- Writes that hang on all open transactions go with any of them. -/
theorem filter_waitsFor_eq_nil {ws : List PendingWrite} {id : Nat} (hws : ∀ w ∈ ws, id ∈ w.path) :
    ws.filter (fun w => !waitsFor id w) = [] := by
  refine List.filter_eq_nil_iff.mpr fun w hw => ?_
  simpa [waitsFor] using hws w hw

/-- No change of a pending list waits for a transaction that others do not wait for. -/
theorem filter_waitsFor_eq_self {ws : List PendingWrite} {id : Nat}
    (hws : ∀ w ∈ ws, id ∉ w.path) : ws.filter (fun w => !waitsFor id w) = ws := by
  refine List.filter_eq_self.mpr fun w hw => ?_
  simpa [waitsFor] using hws w hw

/-- A name stands for the savepoint that was opened under it last. -/
theorem savepoint?_push (s : Session) (name name' : String) :
    Session.savepoint? { s.push with savepoints := (name, s.created) :: s.savepoints } name' =
      if name = name' then some s.created else s.savepoint? name' := by
  unfold savepoint?
  rw [List.find?_cons]
  by_cases hname : name = name'
  · simp [hname]
  · have hbeq : (name == name') = false := beq_eq_false_iff_ne.mpr hname
    dsimp only
    rw [hbeq, if_neg hname]

/-- No name stands for a transaction that is still to be opened. -/
theorem savepoint?_ne_created (L : Ledger s h) (name : String) :
    s.savepoint? name ≠ some s.created := by
  intro hsome
  obtain ⟨e, hfind, he⟩ := Option.map_eq_some_iff.mp hsome
  exact (L.named e (List.mem_of_find?_eq_some hfind)).1.ne he

namespace Tracks

theorem isActive (T : a.Tracks s) : s.isActive = !a.broken := by
  cases hbroken : a.broken with
  | false =>
      refine isActive_iff.mpr fun e he => ?_
      rw [T.head e he, hbroken, if_neg Bool.false_ne_true]
  | true =>
      refine Bool.eq_false_iff.mpr fun hactive => ?_
      rcases T.length with hlength | ⟨_, _, _, hwhole⟩
      · obtain ⟨e, rest, houtline⟩ := List.exists_cons_of_length_eq_add_one hlength
        have hhead := T.head e (by rw [houtline]; rfl)
        rw [isActive_iff.mp hactive e (by rw [houtline]; rfl), hbroken, if_pos rfl] at hhead
        cases hhead
      · rw [hbroken] at hwhole
        cases hwhole

/-- In a transaction that can go on, the queue holds what is pending. -/
theorem queue_eq (T : a.Tracks s) (hwhole : a.broken = false) : s.queue = a.pending := by
  obtain ⟨torn, hqueue, htorn, _⟩ := T.queue
  rw [hqueue, htorn hwhole, List.append_nil]

theorem length_outline (T : a.Tracks s) (hs : s.outline ≠ []) :
    s.outline.length = a.blocks.length + 1 :=
  T.length.resolve_right fun hnone => hs hnone.1

/-- A session with a root transaction that is opened if there is none. -/
theorem of_idles (T : a.Tracks s) (hidles : Idles s t) : a.Tracks t := by
  have hsavepoint (name : String) : t.savepoint? name = s.savepoint? name := by
    rw [savepoint?, savepoint?, hidles.opens.savepoints]
  rcases hidles.opens.cases with ⟨houtline, _⟩ | ⟨hnone, hone, _⟩
  · have hpath : t.path = s.path := by rw [path_eq, path_eq, houtline]
    refine ⟨hidles.writes.trans T.writes, ?_, ?_, ?_, ?_, ?_⟩
    · rw [hidles.queue, hpath]
      exact T.queue
    · rw [houtline]
      exact T.head
    · rw [houtline]
      exact T.length
    · intro n b id hb hid name
      rw [hsavepoint]
      exact T.named n b id hb (hpath ▸ hid) name
    · rw [hidles.queue, hpath]
      exact T.around
  · rcases T.length with hlength | ⟨_, hblocks, hbase, hwhole⟩
    · rw [hnone] at hlength
      cases hlength
    · have hqueue := T.queue_eq hwhole
      refine ⟨hidles.writes.trans T.writes, ⟨[], ?_, fun _ => rfl, List.forall_mem_nil _⟩, ?_, ?_,
        ?_, ?_⟩
      · rw [hidles.queue, hqueue, List.append_nil]
      · rw [hone, hwhole]
        exact fun e he => by rw [← Option.some.inj he]; rfl
      · rw [hone, hblocks]
        exact Or.inl rfl
      · rw [hblocks]
        exact fun n b id hb => nomatch hb
      · rw [hblocks]
        exact fun n id hn => absurd hn (Nat.not_lt_zero n)

/-- A flush puts its changes under the innermost savepoint. -/
theorem note (T : a.Tracks s) (hwhole : a.broken = false) (hs : s.outline ≠ [])
    (hflushed : Flushed c s t) (hcatalog : c.catalog.OnCommit) :
    (a.note (c.written s t)).Tracks t := by
  have hpath : t.path = s.path := by rw [path_eq, path_eq, hflushed.outline]
  have hwritten : ∀ w ∈ c.written s t, w.path = s.path := fun w hw =>
    (Surroundings.path_of_mem_written hw).trans hpath
  have hqueue : t.queue = s.queue ++ c.written s t := hflushed.queue
  obtain ⟨heard, hheard⟩ := hflushed.heard.exists_heard
  refine ⟨?_, ⟨[], ?_, fun _ => rfl, List.forall_mem_nil _⟩, ?_, ?_, ?_, ?_⟩
  · rw [hheard.writes, hheard.none (Or.inr hcatalog), List.append_nil, T.writes]
    exact congrArg (List.map PendingWrite.call) (a.note_sent _).symm
  · rw [hqueue, T.queue_eq hwhole, List.append_nil]
    exact (a.note_pending _).symm
  · rw [hflushed.outline, note_broken]
    exact T.head
  · refine Or.inl ?_
    rw [hflushed.outline, T.length_outline hs]
    exact congrArg (· + 1) (put_blocks_length a _).symm
  · intro n b id hb hid name
    obtain ⟨⟨b', hb', hname⟩, _⟩ := put_around a _ hb
    rw [← hname, savepoint?, hflushed.savepoints]
    exact T.named n b' id hb' (hpath ▸ hid) name
  · intro n id hn hid
    obtain ⟨_, hbase, haround⟩ := put_around a _ (List.getElem?_eq_getElem hn)
    have hgone : (c.written s t).filter (fun w => !waitsFor id w) = [] := by
      refine filter_waitsFor_eq_nil fun w hw => ?_
      rw [hwritten w hw, ← hpath]
      exact List.mem_of_getElem? hid
    rw [hqueue, List.filter_append, hgone, List.append_nil,
      T.around n id ((put_blocks_length a _) ▸ hn) (hpath ▸ hid)]
    exact congrArg₂ (fun base blocks => base ++ changes blocks) hbase.symm haround.symm

/-- A failed flush breaks the innermost transaction. -/
theorem abort (T : a.Tracks s) (hwhole : a.broken = false) (hs : s.outline ≠ [])
    (haborted : Aborted c s t) (hcatalog : c.catalog.OnCommit) :
    Tracks { a with broken := true } t := by
  have hpath : t.path = s.path := by
    rw [path_eq, path_eq, haborted.outline]
    cases s.outline with
    | nil => rfl
    | cons e rest => rfl
  obtain ⟨torn, hqueue, htorn⟩ := haborted.queue
  obtain ⟨heard, hheard⟩ := haborted.heard.exists_heard
  have hin {id : Nat} (hid : id ∈ s.path) : ∀ w ∈ torn, id ∈ w.path := fun w hw => by
    rw [htorn w hw]
    exact hid
  refine ⟨?_, ⟨torn, ?_, nofun, ?_⟩, ?_, ?_, ?_, ?_⟩
  · rw [hheard.writes, hheard.none (Or.inr hcatalog), List.append_nil, T.writes]
  · rw [hqueue, T.queue_eq hwhole]
    rfl
  · rw [hpath]
    exact fun w hw id hid => hin hid w hw
  · rw [haborted.outline, List.head?_modifyHead]
    intro e he
    obtain ⟨d, _, rfl⟩ := Option.map_eq_some_iff.mp he
    rfl
  · refine Or.inl ?_
    rw [haborted.outline, List.length_modifyHead, T.length_outline hs]
  · intro n b id hb hid name
    rw [savepoint?, haborted.savepoints]
    exact T.named n b id hb (hpath ▸ hid) name
  · intro n id hn hid
    have hid : s.path[n]? = some id := hpath ▸ hid
    rw [hqueue, List.filter_append, filter_waitsFor_eq_nil (hin (List.mem_of_getElem? hid)),
      List.append_nil]
    exact T.around n id hn hid

/-- Released savepoints hand their changes to what is around them. -/
theorem merge (T : a.Tracks s) (hwhole : a.broken = false) (hs : s.outline ≠ []) {n : Nat}
    (hn : n ≤ a.blocks.length) (hactive : ∀ e ∈ s.outline, e.2 = .active) (hcloses : Closes n s t)
    (hqueue : t.queue = s.queue) : (a.merge n).Tracks t := by
  have hlength := T.length_outline hs
  have hpath (m : Nat) : t.path[m]? = s.path[n + m]? := by
    rw [hcloses.path, List.getElem?_drop]
  have hblocks : (a.merge n).blocks.length = a.blocks.length - n := by
    rw [Account.merge, put_blocks_length, List.length_drop]
  refine ⟨?_, ⟨[], ?_, fun _ => rfl, List.forall_mem_nil _⟩, ?_, ?_, ?_, ?_⟩
  · rw [hcloses.writes, T.writes, merge_sent]
  · rw [hqueue, T.queue_eq hwhole, merge_pending, List.append_nil]
  · intro e he
    rw [merge_broken, hwhole, if_neg Bool.false_ne_true]
    refine hactive e (List.mem_of_mem_drop (i := n) ?_)
    rw [← hcloses.outline]
    exact List.mem_of_mem_head? he
  · refine Or.inl ?_
    rw [hcloses.outline, List.length_drop, hblocks, hlength]
    omega
  · intro m b id hb hid name
    obtain ⟨⟨b', hb', hname⟩, _⟩ := put_around _ _ hb
    rw [← hname, savepoint?, hcloses.savepoints]
    exact T.named (n + m) b' id (by rw [← List.getElem?_drop]; exact hb') (hpath m ▸ hid) name
  · intro m id hm hid
    obtain ⟨_, hbase, haround⟩ := put_around _ _ (List.getElem?_eq_getElem hm)
    rw [hqueue, T.around (n + m) id (by omega) (hpath m ▸ hid)]
    refine congrArg₂ (fun base blocks => base ++ changes blocks) hbase.symm ?_
    rw [Account.merge, haround, List.drop_drop, Nat.add_assoc]

/-- Undone savepoints take their changes along. -/
theorem undo (T : a.Tracks s) {n id : Nat} (hn : n < a.blocks.length) (hid : s.path[n]? = some id)
    (houter : ∀ e ∈ s.outline.tail, e.2 = .active) (hcloses : Closes (n + 1) s t)
    (hqueue : t.queue = s.queue.filter fun w => !waitsFor id w) : (a.drop (n + 1)).Tracks t := by
  have hs : s.outline ≠ [] := by
    intro hnone
    rw [path_eq, hnone] at hid
    cases hid
  have hlength := T.length_outline hs
  have hpath (m : Nat) : t.path[m]? = s.path[n + 1 + m]? := by
    rw [hcloses.path, List.getElem?_drop]
  have hleft := hqueue.trans (T.around n id hn hid)
  refine ⟨hcloses.writes.trans T.writes, ⟨[], ?_, fun _ => rfl, List.forall_mem_nil _⟩, ?_, ?_, ?_,
    ?_⟩
  · rw [hleft, List.append_nil]
    rfl
  · intro e he
    refine houter e ?_
    rw [← List.drop_one]
    have hmem : e ∈ s.outline.drop (1 + n) := by
      rw [Nat.add_comm, ← hcloses.outline]
      exact List.mem_of_mem_head? he
    rw [← List.drop_drop] at hmem
    exact List.mem_of_mem_drop hmem
  · refine Or.inl ?_
    rw [hcloses.outline, List.length_drop, Account.drop, List.length_drop, hlength]
    omega
  · intro m b k hb hk name
    rw [savepoint?, hcloses.savepoints]
    refine T.named (n + 1 + m) b k ?_ (hpath m ▸ hk) name
    rw [← List.getElem?_drop]
    exact hb
  · intro m k hm hk
    have hm : m < a.blocks.length - (n + 1) := by
      rw [← List.length_drop]
      exact hm
    have houtside := T.around (n + 1 + m) k (by omega) (hpath m ▸ hk)
    rw [hqueue, List.filter_comm, houtside, Account.drop, List.drop_drop]
    -- what is around the level is around the undone savepoint, too
    refine filter_waitsFor_eq_self fun w hw hwaits => ?_
    have hmem : w ∈ s.queue.filter fun w => !waitsFor id w := by
      rw [T.around n id hn hid]
      rcases List.mem_append.mp hw with hw | hw
      · exact List.mem_append_left _ hw
      · exact List.mem_append_right _ (mem_changes_drop (by omega) hw)
    have hfree := (List.mem_filter.mp hmem).2
    rw [waitsFor, List.contains_iff_mem.mpr hwaits] at hfree
    cases hfree

/-- A savepoint is opened under a name. -/
theorem nest (T : a.Tracks s) (L : Ledger s h) (hwhole : a.broken = false) (hs : s.outline ≠ [])
    (name : String) :
    (a.nest name).Tracks { s.push with savepoints := (name, s.created) :: s.savepoints } := by
  have hlength := T.length_outline hs
  refine ⟨T.writes, ⟨[], ?_, fun _ => rfl, List.forall_mem_nil _⟩, ?_, Or.inl ?_, ?_, ?_⟩
  · rw [List.append_nil, pending, Account.nest, changes_cons, changes_map_unname, List.append_nil]
    exact T.queue_eq hwhole
  · intro e he
    rw [show (a.nest name).broken = a.broken from rfl, hwhole]
    rw [← Option.some.inj he]
    rfl
  · rw [Account.nest, List.length_cons, List.length_map, ← hlength]
    rfl
  · rintro (_ | n) b id hb hid name'
    · obtain rfl := Option.some.inj hb
      obtain rfl : s.created = id := Option.some.inj hid
      have hold := savepoint?_ne_created L name'
      rw [savepoint?_push]
      by_cases hname : name = name'
      · simp [hname]
      · simp [hname, hold]
    · have hid : s.path[n]? = some id := hid
      have hnew : s.created ≠ id := (L.numbered id (List.mem_of_getElem? hid)).ne'
      obtain ⟨b', hb', rfl⟩ := Option.map_eq_some_iff.mp ((List.getElem?_map ..).symm.trans hb)
      rw [savepoint?_push, name_unname_iff, T.named n b' id hb' hid name']
      by_cases hname : name = name'
      · simp [hname, hnew]
      · simp [hname]
  · rintro (_ | n) id hn hid
    · obtain rfl : s.created = id := Option.some.inj hid
      have hkept : s.queue.filter (fun w => !waitsFor s.created w) = s.queue := by
        refine filter_waitsFor_eq_self fun w hw hwaits => ?_
        rw [L.queue] at hw
        exact (L.captured w (History.mem_waiting.mp hw).1 s.created hwaits).ne rfl
      refine hkept.trans ?_
      rw [Account.nest, List.drop_one, List.tail_cons, changes_map_unname]
      exact T.queue_eq hwhole
    · have hn : n < a.blocks.length := by
        rw [Account.nest, List.length_cons, List.length_map] at hn
        exact Nat.lt_of_succ_lt_succ hn
      rw [Account.nest, List.drop_succ_cons, ← List.map_drop, changes_map_unname]
      exact T.around n id hn hid

/-- With the root transaction everything ends. -/
theorem clear (T : a.Tracks s) (houtline : t.outline = []) (hqueue : t.queue = [])
    (hwrites : t.writes = s.writes) : a.clear.Tracks t where
  writes := hwrites.trans T.writes
  queue := ⟨[], hqueue, fun _ => rfl, List.forall_mem_nil _⟩
  head e he := by
    rw [houtline] at he
    cases he
  length := Or.inr ⟨houtline, rfl, rfl, rfl⟩
  named _ _ _ hb := nomatch hb
  around _ _ hn := absurd hn (Nat.not_lt_zero _)

end Tracks

end Account

end Typeahead
