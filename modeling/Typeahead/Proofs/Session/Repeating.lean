import Typeahead.Proofs.Session.Echoing
import Typeahead.Proofs.Session.Reading

/-!
# Commands again with another backend

Every command does the same after other calls and with another backend that gives the same
answers, `Surroundings.echoes_perform`, and with it every instruction and every run.
-/

namespace Typeahead

namespace Session

/-! The operations of a session go by the open transactions. -/

theorem mergeInnermost_withSent (s : Session) (past : List Call) :
    (s.withSent past).mergeInnermost = s.mergeInnermost.withSent past := by
  rcases s with ⟨objects, names, fresh, marked, stack, savepoints, created, rows, queue, sent⟩
  rcases stack with _ | ⟨t, _ | ⟨outer, rest⟩⟩
  · rfl
  · rfl
  · rfl

theorem breakInnermost_withSent (c : Surroundings) (s : Session) (past : List Call) :
    (s.withSent past).breakInnermost c = (s.breakInnermost c).withSent past := by
  rcases s with ⟨objects, names, fresh, marked, stack, savepoints, created, rows, queue, sent⟩
  cases stack with
  | nil => rfl
  | cons t outer => rfl

theorem pop_withSent (s : Session) (past : List Call) :
    (s.withSent past).pop = s.pop.withSent past := by
  rcases s with ⟨objects, names, fresh, marked, stack, savepoints, created, rows, queue, sent⟩
  rcases stack with _ | ⟨t, _ | ⟨outer, rest⟩⟩
  · rfl
  · rfl
  · rfl

theorem undoInnermost_withSent (c : Surroundings) (s : Session) (past : List Call) :
    (s.withSent past).undoInnermost c = (s.undoInnermost c).withSent past := by
  have hclean : (s.withSent past).isClean = s.isClean := rfl
  have hstack : (s.withSent past).stack = s.stack := rfl
  unfold undoInnermost
  rw [hclean, hstack]
  cases s.stack with
  | nil => rfl
  | cons t outer =>
      dsimp only
      rw [← pop_withSent]
      cases t.state with
      | active => rfl
      | broken =>
          dsimp only
          split
          · rfl
          · rfl
      | committed =>
          dsimp only
          split
          · rfl
          · rfl

theorem undoAll_withSent (c : Surroundings) (s : Session) (past : List Call) :
    (s.withSent past).undoAll c = (s.undoAll c).withSent past :=
  List.foldl_hom (fun s : Session => s.withSent past) fun s _ => s.undoInnermost_withSent c past

theorem close_withSent (s : Session) (past : List Call) :
    (s.withSent past).close = s.close.withSent past := rfl

end Session

namespace Surroundings

open Exec

/-- The same surroundings with another backend. -/
def withBackend (c : Surroundings) (backend : Backend) : Surroundings := { c with backend }

variable (c : Surroundings) (echo : Backend)

theorem echoes_send (x : Searchable) (action : Action) (key body : Value) :
    Echoes c.backend echo (c.send x action key body)
      ((c.withBackend echo).send x action key body) :=
  echoes_bind (echoes_exchange (x.index.echoes_sendAction x.client c.backend echo c.enabled action
    key body)) fun _ => (ignores_pure _).echoes

theorem echoes_announce (action : Action) (id : Nat) :
    Echoes c.backend echo (c.announce action id) ((c.withBackend echo).announce action id) := by
  refine echoes_bind (ignores_object id).echoes fun o => ?_
  rw [show (c.withBackend echo).catalog = c.catalog from rfl]
  cases c.catalog.searchable? o.entity with
  | none => exact (ignores_pure _).echoes
  | some x =>
      dsimp only
      split
      · exact (ignores_pure _).echoes
      · refine echoes_forM fun _ _ => echoes_bind (c.ignores_capture x action id).echoes ?_
        exact fun parts => c.echoes_send echo x action parts.1 parts.2

theorem echoes_save (plan : TablePlan) :
    Echoes c.backend echo (c.save plan) ((c.withBackend echo).save plan) := by
  have hannounce (action : Action) (xs : List Nat) :
      Echoes c.backend echo (xs.forM (c.announce action))
        (xs.forM ((c.withBackend echo).announce action)) :=
    echoes_forM fun id _ => c.echoes_announce echo action id
  refine echoes_bind (echoes_forM fun id _ => (c.ignores_overwriteRow id).echoes) fun _ => ?_
  refine echoes_bind (echoes_forM fun id _ => (c.ignores_updateRow id).echoes) fun _ => ?_
  refine echoes_bind (echoes_forM fun id _ => (c.ignores_insertRow id).echoes) fun _ => ?_
  refine echoes_bind (hannounce .index _) fun _ => ?_
  exact echoes_bind (hannounce .update _) fun _ => hannounce .update _

theorem echoes_remove (plan : TablePlan) :
    Echoes c.backend echo (c.remove plan) ((c.withBackend echo).remove plan) := by
  refine echoes_bind (echoes_forM fun id _ => (c.ignores_removeRow id).echoes) fun _ => ?_
  exact echoes_forM fun id _ => c.echoes_announce echo .delete id

theorem echoes_enqueue (action : Action) (id : Nat) :
    Echoes c.backend echo (c.enqueue action id) ((c.withBackend echo).enqueue action id) := by
  refine echoes_bind (ignores_object id).echoes fun o => ?_
  rw [show (c.withBackend echo).queueing? o.entity = c.queueing? o.entity from rfl]
  cases c.queueing? o.entity with
  | none => exact (ignores_pure _).echoes
  | some x =>
      dsimp only
      split
      · exact (ignores_pure _).echoes
      · refine echoes_bind (c.ignores_capture x action id).echoes fun parts => ?_
        exact echoes_modify fun _ _ => rfl

theorem echoes_collect :
    Echoes c.backend echo c.collect (c.withBackend echo).collect := by
  have henqueue (action : Action) (ids : List Nat) :
      Echoes c.backend echo (ids.forM (c.enqueue action))
        (ids.forM ((c.withBackend echo).enqueue action)) :=
    echoes_forM fun id _ => c.echoes_enqueue echo action id
  refine echoes_get_bind (fun s => ?_) fun _ _ => rfl
  exact echoes_bind (henqueue .index _) fun _ =>
    echoes_bind (henqueue .update _) fun _ => henqueue .delete _

theorem echoes_flushWork :
    Echoes c.backend echo c.flushWork (c.withBackend echo).flushWork := by
  refine echoes_get_bind (fun s => ?_) fun _ _ => rfl
  refine echoes_bind (echoes_forM fun plan _ => c.echoes_save echo plan) fun _ => ?_
  refine echoes_bind (echoes_forM fun plan _ => c.echoes_remove echo plan) fun _ => ?_
  exact echoes_bind (c.echoes_collect echo) fun _ => (ignores_modify c.conclude_withWrites).echoes

theorem echoes_flush : Echoes c.backend echo c.flush (c.withBackend echo).flush := by
  refine echoes_get_bind (fun s => ?_) fun _ _ => rfl
  split
  · exact (ignores_pure _).echoes
  · refine echoes_bind ignores_begin.echoes fun _ => echoes_bind ignores_requireActive.echoes ?_
    refine fun _ => echoes_tryCatch (c.echoes_flushWork echo) fun e => ?_
    refine echoes_bind (echoes_modify fun s past => ?_) fun _ => (ignores_throw e).echoes
    exact s.breakInnermost_withSent c past

theorem echoes_proceed : Echoes c.backend echo c.proceed (c.withBackend echo).proceed :=
  echoes_bind ignores_requireActive.echoes fun _ => c.echoes_flush echo

theorem echoes_releaseInnermost :
    Echoes c.backend echo c.releaseInnermost (c.withBackend echo).releaseInnermost := by
  rw [c.releaseInnermost_eq, (c.withBackend echo).releaseInnermost_eq]
  exact echoes_bind (c.echoes_proceed echo) fun _ =>
    echoes_modify Session.mergeInnermost_withSent

theorem echoes_beginNested (name : String) :
    Echoes c.backend echo (c.beginNested name) ((c.withBackend echo).beginNested name) := by
  refine echoes_bind ignores_begin.echoes fun _ => echoes_bind (c.echoes_proceed echo) fun _ => ?_
  exact echoes_modify fun _ _ => rfl

theorem ignores_savepoint (name : String) : Ignores (savepoint name) := by
  refine ignores_get_bind (fun s => ?_) fun _ _ _ => rfl
  cases s.savepoints.find? fun e => e.1 == name with
  | some e => exact ignores_pure _
  | none => exact ignores_throw _

theorem echoes_release (name : String) :
    Echoes c.backend echo (c.release name) ((c.withBackend echo).release name) := by
  refine echoes_bind (ignores_savepoint name).echoes fun id => ?_
  refine echoes_get_bind (fun s => ?_) fun _ _ => rfl
  cases s.stack.find? fun t => t.id == id with
  | none => exact (ignores_throw _).echoes
  | some t =>
      dsimp only
      split
      · exact (ignores_throw _).echoes
      · refine echoes_bind (echoes_forM fun _ _ => c.echoes_releaseInnermost echo) fun _ => ?_
        exact c.echoes_releaseInnermost echo

theorem echoes_rollbackTo (name : String) :
    Echoes c.backend echo (c.rollbackTo name) ((c.withBackend echo).rollbackTo name) := by
  refine echoes_bind (ignores_savepoint name).echoes fun id => ?_
  refine echoes_get_bind (fun s => ?_) fun _ _ => rfl
  split
  · exact echoes_modify fun s past => (s.dropInside id).undoInnermost_withSent c past
  · exact (ignores_throw _).echoes

theorem echoes_leave (name : String) :
    Echoes c.backend echo (c.leave name) ((c.withBackend echo).leave name) := by
  refine echoes_bind (ignores_savepoint name).echoes fun id => ?_
  refine echoes_get_bind (fun s => ?_) fun _ _ => rfl
  cases s.stack.find? fun t => t.id == id with
  | none => exact (ignores_pure _).echoes
  | some t =>
      dsimp only
      split
      · exact echoes_modify fun s past => (s.dropInside id).pop_withSent past
      · exact c.echoes_rollbackTo echo name

theorem echoes_deliver : Echoes c.backend echo c.deliver (c.withBackend echo).deliver := by
  have hdeliver (c : Surroundings) : c.deliver = (do
      let s ← get
      modify fun s => { s with queue := [] }
      s.queue.forM fun w => c.send w.searchable w.action w.id w.body) := rfl
  rw [hdeliver, hdeliver]
  refine echoes_get_bind (fun s => ?_) fun _ _ => rfl
  refine echoes_bind (echoes_modify fun _ _ => rfl) fun _ => ?_
  exact echoes_forM fun w _ => c.echoes_send echo w.searchable w.action w.id w.body

theorem echoes_deliverAtRoot :
    Echoes c.backend echo c.deliverAtRoot (c.withBackend echo).deliverAtRoot := by
  refine echoes_get_bind (fun s => ?_) fun _ _ => rfl
  split
  · exact (ignores_pure _).echoes
  · exact c.echoes_deliver echo

theorem echoes_prepare : Echoes c.backend echo c.prepare (c.withBackend echo).prepare := by
  refine echoes_bind ignores_begin.echoes fun _ => echoes_get_bind (fun s => ?_) fun _ _ => rfl
  refine echoes_bind (echoes_forM fun _ _ => c.echoes_releaseInnermost echo) fun _ => ?_
  exact c.echoes_proceed echo

theorem echoes_commit : Echoes c.backend echo c.commit (c.withBackend echo).commit := by
  refine echoes_bind (c.echoes_prepare echo) fun _ => ?_
  refine echoes_bind (ignores_modify fun s queue sent => ?_).echoes fun _ => ?_
  · exact modifyInnermost_withWrites s queue sent _
  · exact echoes_bind (c.echoes_deliverAtRoot echo) fun _ => echoes_modify Session.pop_withSent

theorem echoes_rollback : Echoes c.backend echo c.rollback (c.withBackend echo).rollback := by
  refine echoes_get_bind (fun s => ?_) fun _ _ => rfl
  cases s.stack with
  | nil => exact (ignores_pure _).echoes
  | cons t rest =>
      dsimp only
      split
      · exact (ignores_throw _).echoes
      · exact echoes_modify (Session.undoAll_withSent c)

theorem echoes_search (entity : String) (text : Value) (options : Options) :
    Echoes c.backend echo (c.search entity text options)
      ((c.withBackend echo).search entity text options) := by
  unfold search
  rw [show (c.withBackend echo).catalog = c.catalog from rfl]
  cases c.catalog.searchable? entity with
  | none => exact (ignores_throw _).echoes
  | some x => exact echoes_exchange (x.index.echoes_search x.client c.backend echo text options)

/-- Every command does the same with another backend that gives the same answers. -/
theorem echoes_perform (command : Command) :
    Echoes c.backend echo (c.perform command) ((c.withBackend echo).perform command) := by
  have hdone {x y : Exec Unit} (hx : Echoes c.backend echo x y) :
      Echoes c.backend echo (do x; return none : Exec (Option Page)) (do y; return none) :=
    echoes_bind hx fun _ => (ignores_pure _).echoes
  cases command with
  | add object entity values => exact hdone (c.ignores_add object entity values).echoes
  | readd object => exact hdone (c.ignores_readd object).echoes
  | set object attr value => exact hdone (c.ignores_set object attr value).echoes
  | delete object => exact hdone (c.ignores_delete object).echoes
  | flush => exact hdone (c.echoes_flush echo)
  | commit => exact hdone (c.echoes_commit echo)
  | rollback => exact hdone (c.echoes_rollback echo)
  | close => exact hdone (echoes_modify Session.close_withSent)
  | beginNested name => exact hdone (c.echoes_beginNested echo name)
  | release name => exact hdone (c.echoes_release echo name)
  | rollbackTo name => exact hdone (c.echoes_rollbackTo echo name)
  | leave name => exact hdone (c.echoes_leave echo name)
  | search entity text options =>
      exact echoes_bind (c.echoes_search echo entity text options) fun _ => (ignores_pure _).echoes

end Surroundings

namespace Running

variable (catalog : Catalog) (backend echo : Backend)

/-- The same with other calls made. -/
def withSent (r : Running) (sent : List Call) : Running :=
  { r with session := r.session.withSent sent }

/-- So does every instruction. -/
theorem step_echoes (r : Running) (i : Instruction) :
    ∃ new, (r.step catalog backend i).2.session.sent = r.session.sent ++ new ∧ ∀ past,
      backend.Agrees echo r.session.sent past new.length →
        (r.withSent past).step catalog echo i =
          ((r.step catalog backend i).1, (r.step catalog backend i).2.withSent (past ++ new)) := by
  cases i with
  | session command =>
      obtain ⟨new, hsent, hecho⟩ :=
        (r.surroundings catalog backend).echoes_perform echo command r.session
      refine ⟨new, hsent, fun past hagrees => ?_⟩
      have hstep := hecho past hagrees
      unfold step
      dsimp only
      rw [show ((r.withSent past).surroundings catalog echo).perform command
        (r.withSent past).session = _ from hstep]
      rfl
  | setStanding b =>
      exact ⟨[], (List.append_nil _).symm, fun past _ => by rw [List.append_nil]; rfl⟩
  | enter name b =>
      exact ⟨[], (List.append_nil _).symm, fun past _ => by rw [List.append_nil]; rfl⟩
  | leave name =>
      exact ⟨[], (List.append_nil _).symm, fun past _ => by rw [List.append_nil]; rfl⟩

/-- And so does every run. -/
theorem run_echoes (r : Running) (program : List Instruction) {past : List Call}
    (hagrees : ∀ n, backend.Agrees echo r.session.sent past n) :
    ∃ new, (r.run catalog backend program).session.sent = r.session.sent ++ new ∧
      (r.withSent past).run catalog echo program =
        (r.run catalog backend program).withSent (past ++ new) ∧
      ∀ n, backend.Agrees echo (r.session.sent ++ new) (past ++ new) n := by
  induction program generalizing r past with
  | nil =>
      refine ⟨[], (List.append_nil _).symm, ?_, ?_⟩
      · rw [List.append_nil]
        rfl
      · rw [List.append_nil, List.append_nil]
        exact hagrees
  | cons i program ih =>
      obtain ⟨new, hsent, hecho⟩ := r.step_echoes catalog backend echo i
      have hstep := hecho past (hagrees _)
      have hafter (n : Nat) : backend.Agrees echo (r.step catalog backend i).2.session.sent
          (past ++ new) n := by
        rw [hsent]
        exact (hagrees (new.length + n)).after new
      obtain ⟨more, hmore, hrun, hrest⟩ := ih (r.step catalog backend i).2 hafter
      refine ⟨new ++ more, ?_, ?_, ?_⟩
      · rw [← List.append_assoc, ← hsent]
        exact hmore
      · rw [run, List.foldl_cons, ← run, hstep, ← List.append_assoc]
        exact hrun
      · rw [← List.append_assoc, ← List.append_assoc, ← hsent]
        exact hrest

/-- An instruction after a run, too. -/
theorem run_step_echoes (r : Running) (program : List Instruction) (i : Instruction)
    {past : List Call} (hagrees : ∀ n, backend.Agrees echo r.session.sent past n) :
    let a := r.run catalog backend program
    let b := (r.withSent past).run catalog echo program
    (b.step catalog echo i).1 = (a.step catalog backend i).1 ∧
      ∃ new, (a.step catalog backend i).2.session.sent = r.session.sent ++ new ∧
        (b.step catalog echo i).2 = (a.step catalog backend i).2.withSent (past ++ new) := by
  obtain ⟨new, hsent, hrun, hafter⟩ := r.run_echoes catalog backend echo program hagrees
  obtain ⟨more, hmore, hecho⟩ := (r.run catalog backend program).step_echoes catalog backend echo i
  dsimp only
  rw [hrun, hecho _ (by rw [hsent]; exact hafter _)]
  refine ⟨rfl, new ++ more, ?_, ?_⟩
  · rw [hmore, hsent, List.append_assoc]
  · rw [List.append_assoc]

end Running

end Typeahead
