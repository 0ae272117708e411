import Typeahead.Proofs.Session.Exec

/-!
# Computations that leave the writes alone

Changing objects and rows takes no notice of the writes, neither of those that wait for the
commit nor of those that were sent: `Exec.Ignores`.  In a session with other writes such a
computation does the same.
-/

namespace Typeahead

/-- The session with other writes: those that wait, and the calls that were made. -/
def Session.withWrites (s : Session) (queue : List PendingWrite) (sent : List Call) : Session :=
  { s with queue := queue, sent := sent }

theorem Session.begin_withWrites (s : Session) (queue : List PendingWrite) (sent : List Call) :
    (s.withWrites queue sent).begin = s.begin.withWrites queue sent := by
  have hopen : (s.withWrites queue sent).inTransaction = s.inTransaction := rfl
  rw [begin, begin, hopen]
  cases s.inTransaction with
  | true => rfl
  | false => rfl

namespace Exec

variable {α β : Type}

/-- A computation neither looks at the writes of a session nor changes them. -/
def Ignores (x : Exec α) : Prop :=
  ∀ (s : Session) (queue : List PendingWrite) (sent : List Call),
    x (s.withWrites queue sent) = ((x s).1, (x s).2.withWrites queue sent)

/-- So the writes are the same afterwards. -/
theorem Ignores.writes_eq {x : Exec α} (h : Ignores x) (s : Session) :
    (x s).2.queue = s.queue ∧ (x s).2.sent = s.sent := by
  have hself := congrArg Prod.snd (h s s.queue s.sent)
  have hqueue := congrArg Session.queue hself
  have hsent := congrArg Session.sent hself
  exact ⟨hqueue, hsent⟩

theorem ignores_pure (a : α) : Ignores (pure a) := fun _ _ _ => rfl

theorem ignores_throw (e : Failure) : Ignores (throw e : Exec α) := fun _ _ _ => rfl

theorem ignores_bind {x : Exec α} {f : α → Exec β} (hx : Ignores x) (hf : ∀ a, Ignores (f a)) :
    Ignores (x >>= f) := by
  intro s queue sent
  rw [bind_apply, bind_apply, hx s queue sent]
  rcases x s with ⟨r, t⟩
  cases r with
  | ok a => exact hf a t queue sent
  | error e => rfl

theorem ignores_modify {f : Session → Session}
    (hf : ∀ s queue sent, f (s.withWrites queue sent) = (f s).withWrites queue sent) :
    Ignores (modify f) := by
  intro s queue sent
  rw [modify_apply, modify_apply, hf]

/-- What is done next may depend on the state, but not on its writes. -/
theorem ignores_get_bind {f : Session → Exec β} (hf : ∀ s, Ignores (f s))
    (hwrites : ∀ s queue sent, f (s.withWrites queue sent) = f s) : Ignores (get >>= f) := by
  intro s queue sent
  rw [bind_apply, get_apply, bind_apply, get_apply]
  dsimp only
  rw [hwrites]
  exact hf s s queue sent

theorem ignores_object (id : Nat) : Ignores (object id) := by
  refine ignores_get_bind (fun s => ?_) fun _ _ _ => rfl
  cases s.object? id with
  | some o => exact ignores_pure o
  | none => exact ignores_throw _

theorem ignores_named (name : String) : Ignores (named name) := by
  refine ignores_get_bind (fun s => ?_) fun _ _ _ => rfl
  cases s.names.find? fun e => e.1 == name with
  | some e => exact ignores_pure _
  | none => exact ignores_throw _

theorem ignores_put (o : Obj) : Ignores (put o) := ignores_modify fun _ _ _ => rfl

theorem ignores_requireActive : Ignores requireActive := by
  refine ignores_get_bind (fun s => ?_) fun _ _ _ => rfl
  cases s.stack with
  | nil => exact ignores_pure _
  | cons t rest =>
      dsimp only
      cases t.state with
      | active => exact ignores_pure _
      | broken => exact ignores_throw _
      | committed => exact ignores_throw _

theorem ignores_begin : Ignores (modify Session.begin) := ignores_modify Session.begin_withWrites

end Exec

namespace Surroundings

open Exec Session

variable (c : Surroundings)

theorem ignores_refresh (o : Obj) : Ignores (c.refresh o) := by
  cases hattached : o.isAttached with
  | false =>
      have hrefresh : c.refresh o = throw (.session .detached) := by
        unfold refresh
        rw [hattached]
        rfl
      rw [hrefresh]
      exact ignores_throw _
  | true =>
      unfold refresh
      simp only [hattached, Bool.not_true, Bool.false_eq_true, if_false]
      refine ignores_bind ignores_begin fun _ => ignores_bind ignores_requireActive fun _ => ?_
      cases o.key with
      | none => exact ignores_pure _
      | some key =>
          refine ignores_get_bind (fun s => ?_) fun _ _ _ => rfl
          cases Row.find? s.rows (c.tableName o.entity) key with
          | none => exact ignores_throw _
          | some r => exact ignores_put _

theorem ignores_load (id : Nat) (needed : List String) : Ignores (c.load id needed) := by
  refine ignores_bind (ignores_object id) fun o => ?_
  split
  · exact ignores_bind (c.ignores_refresh o) fun _ => ignores_object id
  · exact ignores_pure o

theorem ignores_capture (x : Searchable) (action : Action) (id : Nat) :
    Ignores (c.capture x action id) := by
  have hoff {α : Type} (r : Except Failure α) : Ignores (Exec.ofExcept r) := fun s queue sent => by
    rw [ofExcept_apply, ofExcept_apply]
  refine ignores_bind (c.ignores_load id _) fun o => ?_
  exact ignores_bind (hoff _) fun body => ignores_bind (hoff _) fun key => ignores_pure _

theorem ignores_changeRow (o : Obj) (t : Table) (key : Value) (attrs : List String) :
    Ignores (c.changeRow o t key attrs) := by
  intro s queue sent
  unfold changeRow
  rw [bind_apply, get_apply, bind_apply, get_apply]
  dsimp only [Session.withWrites]
  cases Row.find? s.rows t.name key with
  | none => rfl
  | some r =>
      dsimp only
      generalize (if attrs.contains ((t.keyColumn?.map (·.attr)).getD "") then c.ownKey o
        else key) = now
      split
      · rfl
      · rfl

theorem ignores_updateRow (id : Nat) : Ignores (c.updateRow id) := by
  refine ignores_bind (ignores_object id) fun o => ?_
  cases c.catalog.table? o.entity with
  | none => exact ignores_pure _
  | some t =>
      cases o.key with
      | none => exact ignores_pure _
      | some key =>
          dsimp only
          split
          · exact ignores_pure _
          · refine ignores_bind (c.ignores_load id _) fun p => ?_
            exact c.ignores_changeRow p t key _

theorem ignores_overwriteRow (id : Nat) : Ignores (c.overwriteRow id) := by
  refine ignores_bind (ignores_object id) fun o => ?_
  cases c.catalog.table? o.entity with
  | none => exact ignores_pure _
  | some t =>
      dsimp only
      split
      · exact ignores_pure _
      · exact c.ignores_changeRow o t _ _

theorem ignores_removeRow (id : Nat) : Ignores (c.removeRow id) := by
  refine ignores_bind (ignores_object id) fun o => ?_
  refine ignores_bind (c.ignores_load id _) fun p => ?_
  cases p.key with
  | none => exact ignores_pure _
  | some key => exact ignores_modify fun _ _ _ => rfl

theorem ignores_insertRow (id : Nat) : Ignores (c.insertRow id) := by
  refine ignores_bind (ignores_object id) fun o => ?_
  cases c.catalog.table? o.entity with
  | none => exact ignores_pure _
  | some t =>
      dsimp only
      intro s queue sent
      rw [bind_apply, get_apply, bind_apply, get_apply]
      dsimp only [Session.withWrites]
      rw [bind_apply, ofExcept_apply, bind_apply, ofExcept_apply]
      cases newKey t s.rows (c.ownKey o) with
      | error e => rfl
      | ok key =>
          dsimp only
          split <;> split <;> rfl

theorem ignores_add (object entity : String) (values : Options) :
    Ignores (c.add object entity values) := by
  unfold add
  cases c.catalog.lineage entity with
  | nil => exact ignores_throw _
  | cons e rest =>
      dsimp only
      cases e.model.table with
      | none => exact ignores_throw _
      | some t =>
          dsimp only
          split
          · refine ignores_modify fun s queue sent => ?_
            rw [Session.begin_withWrites]
            rfl
          · exact ignores_throw _

theorem ignores_attach (o : Obj) : Ignores (c.attach o) := by
  refine ignores_bind ignores_begin fun _ => ?_
  refine ignores_get_bind (fun s => ?_) fun _ _ _ => rfl
  split
  · exact ignores_throw _
  · exact ignores_put _

theorem ignores_readd (object : String) : Ignores (c.readd object) := by
  refine ignores_bind (ignores_named object) fun id => ignores_bind (ignores_object id) fun o => ?_
  cases o.standing with
  | loose =>
      refine ignores_modify fun s queue sent => ?_
      rw [Session.begin_withWrites]
      rfl
  | pending => exact ignores_pure _
  | removed => exact ignores_throw _
  | stored =>
      refine ignores_modify fun s queue sent => ?_
      rw [Session.begin_withWrites]
      rfl
  | displaced => exact c.ignores_attach o
  | detached => exact c.ignores_attach o

theorem ignores_delete (object : String) : Ignores (c.delete object) := by
  refine ignores_bind (ignores_named object) fun id => ignores_bind (ignores_object id) fun o => ?_
  split
  · exact ignores_throw _
  · refine ignores_get_bind (fun s => ?_) fun _ _ _ => rfl
    split
    · exact ignores_pure _
    · exact ignores_bind (c.ignores_attach o) fun _ => ignores_modify fun _ _ _ => rfl

theorem ignores_set (object attr : String) (value : Value) :
    Ignores (c.set object attr value) := by
  refine ignores_bind (ignores_named object) fun id => ignores_bind (ignores_object id) fun o => ?_
  cases (c.catalog.table? o.entity).bind fun t => t.attribute? attr with
  | none => exact ignores_put _
  | some column =>
      refine ignores_bind (c.ignores_load id _) fun p => ?_
      dsimp only
      split
      · exact ignores_bind ignores_begin fun _ => ignores_put _
      · exact ignores_put _

section Bookkeeping

variable (s : Session) (queue : List PendingWrite) (sent : List Call)

theorem modifyInnermost_withWrites (f : Transaction → Transaction) :
    (s.withWrites queue sent).modifyInnermost f = (s.modifyInnermost f).withWrites queue sent := by
  have hstack : (s.withWrites queue sent).stack = s.stack := rfl
  unfold Session.modifyInnermost
  rw [hstack]
  cases s.stack with
  | nil => rfl
  | cons t rest => rfl

theorem keep_withWrites (id : Nat) :
    c.keep (s.withWrites queue sent) id = (c.keep s id).withWrites queue sent := by
  have hobject : (s.withWrites queue sent).object? id = s.object? id := rfl
  have hstored : (s.withWrites queue sent).storedAt? c = s.storedAt? c := rfl
  have hpushed (d : Obj) : (if d.id == id then s.withWrites queue sent
      else (s.withWrites queue sent).modifyObject d.id fun d => { d with standing := .displaced }) =
      (if d.id == id then s
        else s.modifyObject d.id fun d => { d with standing := .displaced }).withWrites
          queue sent := by
    split
    · rfl
    · rfl
  unfold keep
  rw [hobject, hstored]
  cases s.object? id with
  | none => rfl
  | some o =>
      dsimp only
      cases s.storedAt? c (c.tableName o.entity) (c.ownKey o) with
      | none =>
          cases o.key.filter fun k => !k.same (c.ownKey o) with
          | none => rfl
          | some k =>
              dsimp only
              rw [modifyInnermost_withWrites]
              rfl
      | some d =>
          dsimp only
          rw [hpushed]
          cases o.key.filter fun k => !k.same (c.ownKey o) with
          | none => rfl
          | some k =>
              dsimp only
              rw [modifyInnermost_withWrites]
              rfl

/-- The bookkeeping at the end of a flush takes no notice of the writes. -/
theorem conclude_withWrites :
    c.conclude (s.withWrites queue sent) = (c.conclude s).withWrites queue sent := by
  have hfold (f : Session → Nat → Session) (ids : List Nat) (s : Session)
      (hf : ∀ s id, f (s.withWrites queue sent) id = (f s id).withWrites queue sent) :
      ids.foldl f (s.withWrites queue sent) = (ids.foldl f s).withWrites queue sent :=
    List.foldl_hom (fun s : Session => s.withWrites queue sent) hf
  have hframe : (s.withWrites queue sent).dirty = s.dirty ∧
      (s.withWrites queue sent).fresh = s.fresh ∧
      (s.withWrites queue sent).marked = s.marked := ⟨rfl, rfl, rfl⟩
  unfold conclude
  rw [hframe.1, hframe.2.1, hframe.2.2, hfold _ s.marked s fun _ _ => rfl]
  dsimp only
  rw [hfold c.keep _ _ fun s id => c.keep_withWrites s queue sent id, modifyInnermost_withWrites]
  rfl

end Bookkeeping

end Surroundings

end Typeahead
