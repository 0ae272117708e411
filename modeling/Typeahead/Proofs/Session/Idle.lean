import Typeahead.Proofs.Session.Reading
import Typeahead.Session.Command

/-!
# Commands that wait

Commands that change objects only.  They may open a root transaction, but neither end one
nor touch the queue, and the only calls that they make are searches: `Session.Idles`.
-/

namespace Typeahead

namespace Call

/-- Whether a call writes a document. -/
def isWrite : Call → Bool
  | .search .. => false
  | _ => true

end Call

namespace Session

/-- The document writes that the backend received. -/
def writes (s : Session) : List Call := s.sent.filter Call.isWrite

/-- No document was written and no transaction ended. -/
structure Idles (s t : Session) : Prop where
  queue : t.queue = s.queue
  writes : t.writes = s.writes
  opens : Opens s t
  sound : s.Sound → t.Sound

namespace Idles

variable {s t u : Session}

theorem refl (s : Session) : Idles s s := ⟨rfl, rfl, Opens.refl s, id⟩

theorem trans (h : Idles s t) (k : Idles t u) : Idles s u :=
  ⟨k.queue.trans h.queue, k.writes.trans h.writes, h.opens.trans k.opens, k.sound ∘ h.sound⟩

theorem of_stays (h : Stays s t) (hqueue : t.queue = s.queue) : Idles s t :=
  ⟨hqueue, by rw [Session.writes, Session.writes, h.sent], h.opens, h.sound⟩

end Idles

instance : IsPreorder Session Idles where
  refl := Idles.refl
  trans _ _ _ := Idles.trans

theorem idles_begin (s : Session) : Idles s s.begin :=
  Idles.of_stays (stays_begin s) s.begin_queue

/-- Objects and marks may change as long as the session stays sound. -/
theorem idles_of_objects {s t : Session} (hqueue : t.queue = s.begin.queue)
    (hsent : t.sent = s.begin.sent) (hstack : t.stack = s.begin.stack)
    (hcreated : t.created = s.begin.created) (hsavepoints : t.savepoints = s.begin.savepoints)
    (hsound : s.Sound → t.Sound) : Idles s t := by
  have hbegin := idles_begin s
  have houtline : t.outline = s.begin.outline := by rw [outline, outline, hstack]
  refine ⟨hqueue.trans hbegin.queue, ?_, ?_, hsound⟩
  · rw [← hbegin.writes, writes, writes, hsent]
  · exact hbegin.opens.trans (Opens.of_eq houtline hcreated hsavepoints)

theorem idles_put {s : Session} {p : Obj} (h : s.Sound → p.Sound s.fresh) :
    Idles s (s.modifyObject p.id fun _ => p) :=
  ⟨rfl, rfl, Opens.of_eq rfl rfl rfl, fun hs => hs.put (h hs)⟩

theorem idles_begin_put {s : Session} {p : Obj} (h : s.Sound → p.Sound s.fresh) :
    Idles s (s.begin.modifyObject p.id fun _ => p) := by
  refine idles_of_objects rfl rfl rfl rfl rfl fun hs => ((idles_begin s).sound hs).put ?_
  rw [begin_fresh]
  exact h hs

end Session

namespace Surroundings

open Session

variable (c : Surroundings)

theorem follows_add (object entity : String) (values : Options) :
    Exec.Follows Idles (c.add object entity values) := by
  unfold add
  rcases c.catalog.lineage entity with _ | ⟨e, rest⟩
  · exact Exec.follows_throw _
  · dsimp only
    cases e.model.table with
    | none => exact Exec.follows_throw _
    | some t =>
        dsimp only
        split
        · refine Exec.follows_modify fun s => idles_of_objects rfl rfl rfl rfl rfl fun hs => ?_
          refine hs.append (fun p hp => ?_) rfl ?_ rfl
          · -- the new number is not that of an older object
            refine ⟨(hs.objects p hp).tracked, (hs.objects p hp).keyless, fun hid => ?_⟩
            rcases List.mem_append.mp hid with hid | hid
            · exact (hs.objects p hp).pending hid
            · exact absurd (List.mem_singleton.mp hid) (hs.id_lt hp).ne
          · exact ⟨Obj.tracked_create s.objects.length entity values, fun _ => rfl, fun _ => rfl⟩
        · exact Exec.follows_throw _

/-- An object that does not wait to be stored is taken among the stored ones. -/
theorem attach_idles {s : Session} {o : Obj} (ho : s.object? o.id = some o)
    (hstanding : s.Sound → o.standing ≠ .pending) : Idles s (c.attach o s).2 := by
  unfold attach
  rw [Exec.bind_apply, Exec.modify_apply]
  dsimp only
  rw [Exec.bind_apply, Exec.get_apply]
  dsimp only
  split
  · exact idles_begin s
  · refine idles_begin_put (p := { o with standing := .stored }) fun hs => ?_
    have hold := hs.objects o (mem_of_object?_eq_some ho).1
    refine ⟨hold.tracked, fun hnew => ?_, fun hid => absurd (hold.pending hid) (hstanding hs)⟩
    rcases hnew with hnew | hnew <;> cases hnew

/-- An unknown object waits to be stored again. -/
theorem sound_pending {s : Session} (hs : s.Sound) {o : Obj} (ho : s.object? o.id = some o)
    (hloose : o.standing = .loose) : SoundFor (s.fresh ++ [o.id])
      (s.modifyObject o.id fun o => { o with standing := .pending }) := by
  refine hs.map (f := fun p => if p.id == o.id then { p with standing := .pending } else p)
    (fun p hp => ?_) rfl
  have hold := hs.objects p hp
  by_cases hid : p.id = o.id
  · have hpo : p = o := hs.eq_of_id_eq hp (mem_of_object?_eq_some ho).1 hid
    have hkeyless : p.key = none := hold.keyless (Or.inr (hpo ▸ hloose))
    simp only [hid, beq_self_eq_true, if_true]
    exact ⟨trivial, hold.tracked, fun _ => hkeyless, fun _ => rfl⟩
  · have hpid : (p.id == o.id) = false := by simpa using hid
    simp only [hpid, Bool.false_eq_true, if_false]
    refine ⟨trivial, hold.tracked, hold.keyless, fun hnew => ?_⟩
    rcases List.mem_append.mp hnew with hnew | hnew
    · exact hold.pending hnew
    · exact absurd (List.mem_singleton.mp hnew) hid

theorem follows_readd (object : String) : Exec.Follows Idles (c.readd object) := by
  refine Exec.follows_bind (Exec.follows_named object) fun id s => ?_
  rw [Exec.bind_apply, Exec.object_apply]
  cases ho : s.object? id with
  | none => exact Idles.refl s
  | some o =>
      obtain rfl : o.id = id := (mem_of_object?_eq_some ho).2
      dsimp only
      cases hstanding : o.standing with
      | pending => exact Idles.refl s
      | removed => exact Idles.refl s
      | displaced => exact c.attach_idles ho fun _ => by rw [hstanding]; decide
      | detached => exact c.attach_idles ho fun _ => by rw [hstanding]; decide
      | stored =>
          refine idles_of_objects rfl rfl rfl rfl rfl fun hs => ?_
          have hbegin := (idles_begin s).sound hs
          exact hbegin.of_objects_eq rfl
      | loose =>
          refine idles_of_objects rfl rfl rfl rfl rfl fun hs => ?_
          exact (sound_pending hs ho hstanding).of_objects_eq rfl

theorem follows_delete (object : String) : Exec.Follows Idles (c.delete object) := by
  refine Exec.follows_bind (Exec.follows_named object) fun id s => ?_
  rw [Exec.bind_apply, Exec.object_apply]
  cases ho : s.object? id with
  | none => exact Idles.refl s
  | some o =>
      obtain rfl : o.id = id := (mem_of_object?_eq_some ho).2
      dsimp only
      split
      · exact Idles.refl s
      · next hkey =>
        rw [Exec.bind_apply, Exec.get_apply]
        dsimp only
        split
        · exact Idles.refl s
        · have hmarks (u : Session) (marked : List Nat) :
              Idles u { u with marked := marked } :=
            ⟨rfl, rfl, Opens.of_eq rfl rfl rfl, fun hs => hs.of_objects_eq rfl⟩
          refine Exec.bind_follows (R := Idles) (c.attach_idles ho fun hs hpending => ?_)
            fun a u _ => hmarks u _
          rw [(hs.objects o (mem_of_object?_eq_some ho).1).keyless (Or.inl hpending)] at hkey
          exact hkey rfl

theorem follows_set (object attr : String) (value : Value) :
    Exec.Follows Idles (c.set object attr value) := by
  refine Exec.follows_bind (Exec.follows_named object) fun id s => ?_
  rw [Exec.bind_apply, Exec.object_apply]
  cases ho : s.object? id with
  | none => exact Idles.refl s
  | some o =>
      have hmem := (mem_of_object?_eq_some ho).1
      dsimp only
      cases (c.catalog.table? o.entity).bind fun t => t.attribute? attr with
      | none =>
          refine idles_put (p := o.setExtra attr value) fun hs => ?_
          have hold := hs.objects o hmem
          exact ⟨Obj.tracked_setExtra hold.tracked attr value, hold.keyless, hold.pending⟩
      | some column =>
          dsimp only
          generalize (if column.primaryKey then [attr] else []) = needed
          have hload (r : Except Failure Obj) (u : Session)
              (h : c.load id needed s = (r, u)) : Idles s u := by
            obtain ⟨hreads, hqueue, _⟩ := c.load_reads h
            exact Idles.of_stays hreads.stays hqueue
          refine Exec.bind_follows (hload _ _ rfl) fun p u h => ?_
          obtain ⟨_, _, hloaded⟩ := c.load_reads h
          have hp := (mem_of_object?_eq_some (hloaded p rfl).1).1
          have hset (hu : u.Sound) : (p.set attr value).Sound u.fresh :=
            ⟨Obj.tracked_set (hu.objects p hp).tracked attr value, (hu.objects p hp).keyless,
              (hu.objects p hp).pending⟩
          split
          · exact idles_begin_put (p := p.set attr value) hset
          · exact idles_put (p := p.set attr value) hset

/-- A search makes no call besides the search itself. -/
theorem search_sent (x : Searchable) (text : Value) (options : Options) (sent : List Call) :
    (x.index.search x.client c.backend text options sent).2.filter Call.isWrite =
      sent.filter Call.isWrite := by
  unfold Index.search
  cases x.index.buildQuery text options with
  | error e => rfl
  | ok body =>
      dsimp only
      unfold Client.search Exchange.andThen Exchange.call
      cases c.backend sent.length with
      | error fault => simp [Call.isWrite]
      | ok reply => simp [Exchange.lift, Call.isWrite]

theorem follows_search (entity : String) (text : Value) (options : Options) :
    Exec.Follows Idles (c.search entity text options) := by
  unfold search
  cases c.catalog.searchable? entity with
  | none => exact Exec.follows_throw _
  | some x =>
      intro s
      dsimp only
      rw [Exec.exchange_apply]
      refine ⟨rfl, c.search_sent x text options s.sent, Opens.of_eq rfl rfl rfl, fun hs => ?_⟩
      exact hs.of_objects_eq rfl

end Surroundings

end Typeahead
