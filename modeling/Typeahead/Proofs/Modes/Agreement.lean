import Typeahead.Proofs.Listening.Committing
import Typeahead.Proofs.Mirror.Guarantees
import Typeahead.Proofs.Modes.Edits

/-!
# Both modes write the same

The same program in both modes: with writes on commit, which wait for the commit, and with writes
while flushing, which are sent at once.  As long as no flush reuses an id, the two come to the same
calls for each id, and both write an update exactly for the stored objects that have changed since
the flush before.
-/

namespace Typeahead

namespace Surroundings

open Session

/-- A plain command flushes, it succeeds in both modes, and it reuses no id. -/
structure FlushesAlike (c : Surroundings) (name : String) (t : Table) (command : Command)
    (s u : Session) : Prop where
  plain : command.Plain name t
  flushes : command.flushes = true
  onCommit : ((c.withCallbacks true).perform command s).1.isOk = true
  whileFlushing : ((c.withCallbacks false).perform command u).1.isOk = true
  free : ¬ s.Reuses ((c.withCallbacks true).perform command s).2

/-- The sessions that a program of plain commands gets to on an empty table: `s` with writes on
commit, and `u` with writes while flushing.  The last flush has left `b` in the first mode. -/
inductive Alongside (c : Surroundings) (name : String) (t : Table) :
    Session → Session → Session → Prop where
  | empty : Alongside c name t .empty .empty .empty
  | edit {b s u : Session} {command : Command} (h : Alongside c name t b s u)
      (hplain : command.Plain name t) (hquiet : command.flushes = false) :
      Alongside c name t b ((c.withCallbacks true).perform command s).2
        ((c.withCallbacks false).perform command u).2
  | flush {b s u : Session} {command : Command} (h : Alongside c name t b s u)
      (hflush : c.FlushesAlike name t command s u) :
      Alongside c name t ((c.withCallbacks true).perform command s).2
        ((c.withCallbacks true).perform command s).2 ((c.withCallbacks false).perform command u).2

/-- A stored object of an id, not about to be removed, departs from what it was. -/
def DepartsUnder (b s : Session) (k : Value) : Prop :=
  ∃ o p, s.IsLive o ∧ o.label.same k = true ∧ b.object? o.id = some p ∧ p.Departs o

/-- What the two sessions have in common. -/
structure Matches (name : String) (t : Table) (x : Searchable) (b s u : Session) : Prop where
  faithful : s.Faithful name t x
  same : u = s.withWrites [] u.sent
  writes : ∀ k, s.posted.filter (Call.isFor k) = u.sent.filter (Call.isFor k)
  recalls : Recalls b s
  idle : s.stack = [] → s.queue = []

variable {c : Surroundings} {name : String} {t : Table} {x : Searchable} {b s u w : Session}
  {command : Command}

/-- Between flushes the modes make no difference, and the writes are left alone. -/
theorem perform_of_quiet (hplain : command.Plain name t) (hquiet : command.flushes = false) :
    (∀ onCommit, (c.withCallbacks onCommit).perform command = c.perform command) ∧
      Exec.Ignores (c.perform command) ∧ Exec.Follows Idles (c.perform command) := by
  have hends {y : Exec Unit} (hignores : Exec.Ignores y) (hidles : Exec.Follows Idles y) :
      Exec.Ignores (y >>= fun _ => pure none : Exec (Option Page)) ∧
        Exec.Follows Idles (y >>= fun _ => pure none : Exec (Option Page)) :=
    ⟨Exec.ignores_bind hignores fun _ => Exec.ignores_pure none,
      Exec.follows_bind hidles fun _ => Exec.follows_pure none⟩
  cases command with
  | add object entity values =>
      refine ⟨fun onCommit => ?_, hends (c.ignores_add object entity values)
        (c.follows_add object entity values)⟩
      rw [perform, add_withCallbacks]
      rfl
  | set object attr value =>
      refine ⟨fun onCommit => ?_, hends (c.ignores_set object attr value)
        (c.follows_set object attr value)⟩
      rw [perform, set_withCallbacks]
      rfl
  | delete object =>
      refine ⟨fun onCommit => ?_, hends (c.ignores_delete object) (c.follows_delete object)⟩
      rw [perform, delete_withCallbacks]
      rfl
  | flush => cases hquiet
  | commit => cases hquiet
  | _ => exact hplain.elim

/-- What was there before is remembered between flushes. -/
theorem recalls_perform (htable : c.catalog.table? name = some t) (hs : s.Regular name t)
    (h : Recalls b s) (hplain : command.Plain name t) (hquiet : command.flushes = false) :
    Recalls b (c.perform command s).2 := by
  have hends (y : Exec Unit) :
      ((y >>= fun _ => pure none : Exec (Option Page)) s).2 = (y s).2 := by
    rw [Exec.bind_apply]
    rcases y s with ⟨_ | _, v⟩
    · rfl
    · rfl
  have hobjects : ∀ o ∈ s.objects, o.entity = name ∧ o.expired = false :=
    fun o ho => ⟨(hs.objects o ho).entity, (hs.objects o ho).present⟩
  cases command with
  | add object entity values =>
      obtain ⟨rfl, _⟩ := hplain
      rw [perform, hends]
      exact recalls_add htable h object values
  | set object attr value =>
      rw [perform, hends]
      exact recalls_set htable hobjects h object value hplain.1
  | delete object =>
      rw [perform, hends]
      exact recalls_delete c h object
  | flush => cases hquiet
  | commit => cases hquiet
  | _ => exact hplain.elim

/-- What a command that flushes in both modes writes. -/
theorem alike_of_flushesAlike (hc : c.Models name t) (hs : s.Faithful name t x) {sent : List Call}
    (h : c.FlushesAlike name t command s (s.withWrites [] sent)) :
    ∃ more more', Alike s ((c.withCallbacks true).perform command s).2 more more' ∧
      ((c.withCallbacks false).perform command (s.withWrites [] sent)).2 =
        ((c.withCallbacks true).perform command s).2.withWrites [] (sent ++ more') := by
  obtain ⟨hplain, hflushes, hon, hoff, hfree⟩ := h
  cases command with
  | flush => exact alike_of_flush hc hs.regular (ok_of_isOk hon) (ok_of_isOk hoff) hfree
  | commit =>
      exact alike_of_commit hc hs.regular hs.shallow (ok_of_isOk hon) (ok_of_isOk hoff) hfree
  | _ => cases hflushes

/-- After a command that flushes nothing is left to flush, and nothing waits outside of a
transaction. -/
theorem isClean_of_flushesAlike (hc : c.Models name t) (hs : s.Faithful name t x)
    (hidle : s.stack = [] → s.queue = []) (h : c.FlushesAlike name t command s u) :
    let w := ((c.withCallbacks true).perform command s).2
    w.isClean = true ∧ (w.stack = [] → w.queue = []) := by
  intro w
  obtain ⟨_, hflushes, hon, _, _⟩ := h
  cases command with
  | flush =>
      have hflush : (c.withCallbacks true).flush s = (.ok (), w) := ok_of_isOk hon
      refine ⟨isClean_of_flush hflush, fun hstack => ?_⟩
      rcases flush_cases hflush with ⟨_, heq⟩ | hwork
      · rw [heq] at hstack ⊢
        exact hidle hstack
      · have hreports := reports_of_flushWork (c := c.withCallbacks true) hc.enabled
          (hc.nodup_baseNames true) hwork hs.begin.regular.sound s.begin_stack_ne_nil
        exact absurd hstack (hreports.opens.stack_ne_nil s.begin_stack_ne_nil)
  | commit =>
      have hcommit : (c.withCallbacks true).commit s = (.ok (), w) := ok_of_isOk hon
      obtain ⟨v, hflush, hw⟩ := hc.commit_ok true hs.regular.sound hs.shallow hcommit
      have hclean : v.isClean = true := isClean_of_flush hflush
      rw [hw]
      exact ⟨hclean, fun _ => rfl⟩
  | _ => cases hflushes

namespace Matches

theorem empty (name : String) (t : Table) (x : Searchable) :
    Matches name t x .empty .empty .empty where
  faithful := faithful_empty name t x
  same := rfl
  writes _ := rfl
  recalls _ ho := absurd ho.1 List.not_mem_nil
  idle _ := rfl

theorem edit (h : Matches name t x b s u) (hx : (c.withCallbacks true).Replicates name t x)
    (htable : c.catalog.table? name = some t) (hplain : command.Plain name t)
    (hquiet : command.flushes = false) :
    Matches name t x b ((c.withCallbacks true).perform command s).2
      ((c.withCallbacks false).perform command u).2 := by
  obtain ⟨hmodes, hignores, hidles⟩ := perform_of_quiet (c := c) hplain hquiet
  have hfaithful := faithful_step hx h.faithful hplain fun hflushes => by
    rw [hquiet] at hflushes
    cases hflushes
  obtain ⟨hqueue, hsent⟩ := hignores.writes_eq s
  have hother : (c.perform command u).2 = (c.perform command s).2.withWrites [] u.sent := by
    conv_lhs => rw [h.same, hignores s [] u.sent]
  rw [hmodes] at hfaithful
  rw [hmodes, hmodes, hother]
  refine ⟨hfaithful, rfl, fun k => ?_, recalls_perform htable h.faithful.regular h.recalls hplain
    hquiet, fun hstack => ?_⟩
  · rw [posted, hqueue, hsent]
    exact h.writes k
  · rw [hqueue]
    refine h.idle ?_
    by_contra hopen
    exact (hidles s).opens.stack_ne_nil hopen hstack

/-- What a command that flushes in both modes writes, and what its sessions have in common. -/
theorem flush (h : Matches name t x b s u) (hc : c.Models name t)
    (hx : (c.withCallbacks true).Replicates name t x)
    (hflush : c.FlushesAlike name t command s u) :
    ∃ more more', Alike s ((c.withCallbacks true).perform command s).2 more more' ∧
      ((c.withCallbacks false).perform command u).2.sent = u.sent ++ more' ∧
      Matches name t x ((c.withCallbacks true).perform command s).2
        ((c.withCallbacks true).perform command s).2
        ((c.withCallbacks false).perform command u).2 := by
  have hfaithful := faithful_step hx h.faithful hflush.plain fun _ => ⟨hflush.onCommit, hflush.free⟩
  obtain ⟨hclean, hidle⟩ := isClean_of_flushesAlike hc h.faithful h.idle hflush
  rw [h.same] at hflush
  obtain ⟨more, more', halike, hother⟩ := alike_of_flushesAlike hc h.faithful hflush
  rw [← h.same] at hother
  refine ⟨more, more', halike, ?_, hfaithful, ?_, fun k => ?_, ?_, hidle⟩
  · rw [hother]
    rfl
  · rw [hother]
    rfl
  · rw [hother, halike.posted, List.filter_append, h.writes k, halike.same k]
    exact (List.filter_append _ _).symm
  · exact recalls_of_isClean hfaithful.regular hclean

/-- With writes while flushing, nothing waits. -/
theorem posted_eq (h : Matches name t x b s u) : u.posted = u.sent := by
  rw [h.same]
  exact List.append_nil _

/-- What counts as changed is what departs from what it was. -/
theorem departsUnder_iff (h : Matches name t x b s u) (k : Value) :
    (∃ o, s.IsLive o ∧ o.isModified = true ∧ o.label.same k = true) ↔ DepartsUnder b s k := by
  have hcalm {o : Obj} (ho : s.IsLive o) := (h.faithful.regular.objects o ho.1).calm
  constructor
  · rintro ⟨o, ho, hmodified, hok⟩
    obtain ⟨p, hp, hedits⟩ := h.recalls o ho
    exact ⟨o, p, ho, hok, hp, (hedits.isModified_iff (hcalm ho)).mp hmodified⟩
  · rintro ⟨o, p, ho, hok, hp, hdeparts⟩
    obtain ⟨p', hp', hedits⟩ := h.recalls o ho
    obtain rfl := Option.some.inj (hp.symm.trans hp')
    exact ⟨o, ho, (hedits.isModified_iff (hcalm ho)).mpr hdeparts, hok⟩

end Matches

/-- Several commands between flushes. -/
theorem Alongside.edits (h : c.Alongside name t b s u) {commands : List Command}
    (hplain : ∀ command ∈ commands, command.Plain name t ∧ command.flushes = false) :
    c.Alongside name t b ((c.withCallbacks true).performAll commands s)
      ((c.withCallbacks false).performAll commands u) := by
  induction commands generalizing s u with
  | nil => exact h
  | cons command commands ih =>
      obtain ⟨hcommand, hquiet⟩ := hplain command List.mem_cons_self
      exact ih (h.edit hcommand hquiet) fun d hd => hplain d (List.mem_cons_of_mem command hd)

/-- The sessions of a program in both modes. -/
theorem matches_of_alongside (hc : c.Models name t)
    (hx : (c.withCallbacks true).Replicates name t x) (h : c.Alongside name t b s u) :
    Matches name t x b s u := by
  induction h with
  | empty => exact Matches.empty name t x
  | edit _ hplain hquiet ih => exact ih.edit hx hc.table hplain hquiet
  | flush _ hflush ih =>
      obtain ⟨_, _, _, _, hmatches⟩ := ih.flush hc hx hflush
      exact hmatches

/-- Both modes write the same for each id: at any time, up to the calls that wait for the commit,
and so outside of transactions, where none waits.  In both a flush writes an update for an id
exactly if a stored object of that id, not about to be removed, departs from what it was when the
last flush was over. -/
theorem modes_write_alike (hc : c.Models name t) (h : c.Alongside name t b s u) :
    (∀ k, s.posted.filter (Call.isFor k) = u.posted.filter (Call.isFor k)) ∧
      (s.stack = [] → ∀ k, s.sent.filter (Call.isFor k) = u.sent.filter (Call.isFor k)) ∧
      Recalls b s ∧
      ∀ command, c.FlushesAlike name t command s u → ∃ more more',
        ((c.withCallbacks true).perform command s).2.posted = s.posted ++ more ∧
        ((c.withCallbacks false).perform command u).2.posted = u.posted ++ more' ∧
        ∀ k, more.filter (Call.isFor k) = more'.filter (Call.isFor k) ∧
          (Call.Updates more k ↔ DepartsUnder b s k) ∧
          (Call.Updates more' k ↔ DepartsUnder b s k) := by
  obtain ⟨x, hx⟩ := hc.replicates
  have hmatches := matches_of_alongside hc hx h
  refine ⟨fun k => ?_, fun hstack k => ?_, hmatches.recalls, fun command hflush => ?_⟩
  · rw [hmatches.posted_eq, hmatches.writes k]
  · have hwrites := hmatches.writes k
    rwa [posted, hmatches.idle hstack, List.map_nil, List.append_nil] at hwrites
  · obtain ⟨more, more', halike, hsent, hnext⟩ := hmatches.flush hc hx hflush
    refine ⟨more, more', halike.posted, ?_, fun k => ?_⟩
    · rw [hnext.posted_eq, hmatches.posted_eq, hsent]
    · have hupdates : Call.Updates more k ↔ DepartsUnder b s k :=
        (halike.updates k).trans (hmatches.departsUnder_iff k)
      exact ⟨halike.same k, hupdates, (Call.updates_congr (halike.same k)).symm.trans hupdates⟩

end Surroundings

namespace Modes

open Journal

theorem models_placing : placing.Models "Place" placeTable where
  declared := ⟨by simp [placeModel], nofun, trivial⟩
  enabled := rfl
  table := rfl
  keyed := by decide
  single := by decide

/-- Two places are to be stored. -/
def drawn (onCommit : Bool) : Session :=
  (placing.withCallbacks onCommit).performAll
    [.add "bern" "Place" [("name", .text "Bern")],
      .add "basel" "Place" [("id", .int 7), ("name", .text "Basel")]] .empty

/-- The places are stored. -/
def charted (onCommit : Bool) : Session :=
  ((placing.withCallbacks onCommit).perform .flush (drawn onCommit)).2

/-- One place gets another name, and the other one gets its old name back. -/
def renamed (onCommit : Bool) : Session :=
  (placing.withCallbacks onCommit).performAll
    [.set "bern" "name" (.text "Berne"), .set "basel" "name" (.text "Basle"),
      .set "basel" "name" (.text "Basel")] (charted onCommit)

/-- The names are stored. -/
def redrawn (onCommit : Bool) : Session :=
  ((placing.withCallbacks onCommit).perform .flush (renamed onCommit)).2

/-- A place gets its old name back and is to be removed. -/
def dropped (onCommit : Bool) : Session :=
  (placing.withCallbacks onCommit).performAll
    [.set "bern" "name" (.text "Bern"), .delete "bern"] (redrawn onCommit)

/-- The place is removed. -/
def cleared (onCommit : Bool) : Session :=
  ((placing.withCallbacks onCommit).perform .commit (dropped onCommit)).2

theorem flushesAlike_drawn :
    placing.FlushesAlike "Place" placeTable .flush (drawn true) (drawn false) :=
  ⟨trivial, rfl, by decide +kernel, by decide +kernel, by decide +kernel⟩

theorem flushesAlike_renamed :
    placing.FlushesAlike "Place" placeTable .flush (renamed true) (renamed false) :=
  ⟨trivial, rfl, by decide +kernel, by decide +kernel, by decide +kernel⟩

theorem flushesAlike_dropped :
    placing.FlushesAlike "Place" placeTable .commit (dropped true) (dropped false) :=
  ⟨trivial, rfl, by decide +kernel, by decide +kernel, by decide +kernel⟩

theorem alongside_renamed : placing.Alongside "Place" placeTable (charted true) (renamed true)
    (renamed false) := by
  have hdrawn : placing.Alongside "Place" placeTable .empty (drawn true) (drawn false) :=
    Surroundings.Alongside.empty.edits (by
      have hnull : Value.null.IsId := ⟨rfl, rfl⟩
      have hseven : (Value.int 7).IsId := ⟨rfl, by decide⟩
      simpa [Command.Plain, Command.flushes] using ⟨hnull, hseven⟩)
  refine (hdrawn.flush flushesAlike_drawn).edits ?_
  simp [Command.Plain, Command.flushes, Table.attrs, placeTable]

theorem alongside_dropped : placing.Alongside "Place" placeTable (redrawn true) (dropped true)
    (dropped false) := by
  refine (alongside_renamed.flush flushesAlike_renamed).edits ?_
  simp [Command.Plain, Command.flushes, Table.attrs, placeTable]

/-- In both modes four calls are made: two places are indexed, only the one with another name is
updated, and it is deleted. -/
theorem modes_write_alike_cleared :
    placing.Models "Place" placeTable ∧
      placing.Alongside "Place" placeTable (cleared true) (cleared true) (cleared false) ∧
      (cleared true).stack = [] ∧ (cleared true).sent.length = 4 ∧
      (cleared false).sent.length = 4 ∧
      (∀ k, (cleared true).sent.filter (Call.isFor k) =
        (cleared false).sent.filter (Call.isFor k)) ∧
      Surroundings.DepartsUnder (charted true) (renamed true) (.int 1) ∧
      ¬ Surroundings.DepartsUnder (charted true) (renamed true) (.int 7) := by
  have hfacts : (cleared true).stack.length = 0 ∧ (cleared true).sent.length = 4 ∧
      (cleared false).sent.length = 4 ∧
      Call.Updates ((redrawn true).posted.drop (renamed true).posted.length) (.int 1) ∧
      ¬ Call.Updates ((redrawn true).posted.drop (renamed true).posted.length) (.int 7) := by
    decide +kernel
  obtain ⟨hstack, hsent, hsent', hbern, hbasel⟩ := hfacts
  have hstack := List.length_eq_zero_iff.mp hstack
  have hcleared : placing.Alongside "Place" placeTable (cleared true) (cleared true)
      (cleared false) := alongside_dropped.flush flushesAlike_dropped
  obtain ⟨_, _, _, hflushes⟩ := Surroundings.modes_write_alike models_placing alongside_renamed
  obtain ⟨more, _, hmore, _, hupdates⟩ := hflushes .flush flushesAlike_renamed
  have hmore : (redrawn true).posted.drop (renamed true).posted.length = more := by
    rw [redrawn, hmore, List.drop_left]
  rw [hmore] at hbern hbasel
  exact ⟨models_placing, hcleared, hstack, hsent, hsent',
    (Surroundings.modes_write_alike models_placing hcleared).2.1 hstack,
    (hupdates (.int 1)).2.1.mp hbern, fun hdeparts => hbasel ((hupdates (.int 7)).2.1.mpr hdeparts)⟩

/-- A place that was given another name and is then removed departs from what it was, but no mode
writes an update for it. -/
theorem not_updates_dropped :
    placing.Alongside "Place" placeTable (redrawn true) (dropped true) (dropped false) ∧
      placing.FlushesAlike "Place" placeTable .commit (dropped true) (dropped false) ∧
      ∃ o ∈ (dropped true).objects, ∃ p ∈ (redrawn true).objects, p.id = o.id ∧
        o.standing = .stored ∧ p.Departs o ∧
        ¬ Call.Updates ((cleared true).posted.drop (dropped true).posted.length) o.label ∧
        ¬ Call.Updates ((cleared false).posted.drop (dropped false).posted.length) o.label := by
  refine ⟨alongside_dropped, flushesAlike_dropped, ?_⟩
  decide +kernel

end Modes

end Typeahead
