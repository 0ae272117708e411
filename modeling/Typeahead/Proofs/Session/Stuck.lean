import Typeahead.Proofs.Session.Boundaries
import Typeahead.Proofs.Session.Capture
import Typeahead.Session.Running

/-!
# A session that is stuck

When the client refuses a write in the middle of a commit, the root transaction has been committed
and cannot go on.  `Session.IsStuck` says that a session is in this state.  No flush, commit or
rollback and nothing about savepoints changes it, `Instruction.isVain`; closing it is the way out,
and the rows stay.
-/

namespace Typeahead

namespace Session

/-- The root transaction is committed, and it is still there. -/
def IsStuck (s : Session) : Prop := ∃ root, s.outline = [(root, .committed)]

variable {s : Session}

theorem IsStuck.stack (h : s.IsStuck) :
    ∃ t : Transaction, s.stack = [t] ∧ t.state = .committed := by
  obtain ⟨root, hroot⟩ := h
  obtain ⟨t, hstack⟩ : ∃ t, s.stack = [t] := by
    refine List.length_eq_one_iff.mp ?_
    rw [← length_outline, hroot, List.length_singleton]
  rw [outline, hstack] at hroot
  exact ⟨t, hstack, (Prod.mk.inj (List.singleton_inj.mp hroot)).2⟩

theorem IsStuck.begin_eq (h : s.IsStuck) : s.begin = s := by
  obtain ⟨t, hstack, _⟩ := h.stack
  unfold begin inTransaction
  rw [hstack]
  rfl

/-- The rows stay when a stuck session is closed. -/
theorem IsStuck.lastingRows_eq (h : s.IsStuck) : s.lastingRows = s.rows := by
  obtain ⟨t, hstack, hstate⟩ := h.stack
  unfold lastingRows
  rw [hstack, List.getLast?_singleton]
  dsimp only
  rw [hstate, if_pos (beq_self_eq_true _)]

/-- A stuck session stays as it is. -/
def Rests (s t : Session) : Prop := s.IsStuck → t = s

instance : IsPreorder Session Rests where
  refl _ _ := rfl
  trans s t u hst htu h := by
    obtain rfl := hst h
    exact htu h

end Session

namespace Exec

open Session

theorem rests_begin : Follows Rests (modify Session.begin : Exec Unit) :=
  follows_modify fun _ h => h.begin_eq

/-- Nothing happens after the check that the innermost transaction is active. -/
theorem rests_requireActive_bind {β : Type} (f : Unit → Exec β) :
    Follows Rests (requireActive >>= f) := by
  intro s hstuck
  obtain ⟨t, hstack, hstate⟩ := hstuck.stack
  obtain ⟨outcome, hrequire, hactive⟩ := requireActive_apply s
  rw [bind_apply, hrequire]
  cases outcome with
  | error e => rfl
  | ok u =>
      have hstill := hactive.mp rfl t (by rw [hstack]; rfl)
      rw [hstate] at hstill
      cases hstill

end Exec

namespace Surroundings

open Exec Session

variable (c : Surroundings)

theorem rests_flush : Follows Rests c.flush := by
  refine follows_get_bind fun s => ?_
  split
  · exact refl_of Rests s
  · exact follows_bind rests_begin (fun _ => rests_requireActive_bind _) s

/-- Nothing happens after a flush that needs an active transaction. -/
theorem rests_proceed_bind {β : Type} (f : Unit → Exec β) : Follows Rests (c.proceed >>= f) := by
  rw [proceed, bind_assoc]
  exact rests_requireActive_bind _

theorem rests_beginNested (name : String) : Follows Rests (c.beginNested name) :=
  follows_bind rests_begin fun _ => c.rests_proceed_bind _

theorem rests_releaseInnermost : Follows Rests c.releaseInnermost := c.rests_proceed_bind _

theorem rests_release (name : String) : Follows Rests (c.release name) := by
  refine follows_bind (follows_get_bind fun s => ?_) fun id => follows_get_bind fun s => ?_
  · cases s.savepoints.find? fun e => e.1 == name with
    | some e => exact refl_of Rests s
    | none => exact refl_of Rests s
  · cases s.stack.find? fun t => t.id == id with
    | none => exact refl_of Rests s
    | some t =>
        dsimp only
        split
        · exact refl_of Rests s
        · exact follows_bind (follows_forM fun _ _ => c.rests_releaseInnermost)
            (fun _ => c.rests_releaseInnermost) s

theorem rests_commit : Follows Rests c.commit := by
  unfold commit prepare
  rw [bind_assoc]
  refine follows_bind rests_begin fun _ => ?_
  rw [bind_assoc]
  refine follows_get_bind fun s => ?_
  rw [bind_assoc]
  exact follows_bind (follows_forM fun _ _ => c.rests_releaseInnermost)
    (fun _ => c.rests_proceed_bind _) s

theorem rests_rollback : Follows Rests c.rollback := by
  refine follows_get_bind fun s hstuck => ?_
  obtain ⟨t, hstack, hstate⟩ := hstuck.stack
  rw [hstack]
  dsimp only
  rw [hstate, if_pos (beq_self_eq_true _)]
  rfl

/-- A name for a savepoint stands for none that is open. -/
theorem not_mem_path_of_named {s : Session} (hnamed : ∀ e ∈ s.savepoints, e.2 ∉ s.path)
    {name : String} {id : Nat} (hname : s.savepoint? name = some id) : id ∉ s.path := by
  obtain ⟨e, hfind, rfl⟩ := Option.map_eq_some_iff.mp hname
  exact hnamed e (List.mem_of_find?_eq_some hfind)

theorem rollbackTo_of_named {s : Session} (hnamed : ∀ e ∈ s.savepoints, e.2 ∉ s.path)
    (name : String) : (c.rollbackTo name s).2 = s := by
  rw [c.rollbackTo_apply]
  cases hname : s.savepoint? name with
  | none => rfl
  | some id =>
      dsimp only
      rw [if_neg (not_mem_path_of_named hnamed hname)]

theorem leave_of_named {s : Session} (hnamed : ∀ e ∈ s.savepoints, e.2 ∉ s.path)
    (name : String) : (c.leave name s).2 = s := by
  rw [c.leave_apply]
  cases hname : s.savepoint? name with
  | none => rfl
  | some id =>
      dsimp only
      rw [find?_stack_eq_none.mpr (not_mem_path_of_named hnamed hname)]

end Surroundings

namespace Instruction

/-- Whether an instruction is about transactions, but does not close the session.  It is in vain
when the session is stuck. -/
def isVain : Instruction → Bool
  | .session .flush | .session .commit | .session .rollback => true
  | .session (.beginNested _) | .session (.release _) => true
  | .session (.rollbackTo _) | .session (.leave _) => true
  | _ => false

end Instruction

namespace Running

variable (catalog : Catalog) (backend : Backend)

/-- In vain means that nothing happens at all. -/
theorem step_of_isVain {r : Running} (hr : r.session.IsStuck)
    (hnamed : ∀ e ∈ r.session.savepoints, e.2 ∉ r.session.path) {i : Instruction}
    (hi : i.isVain = true) : (r.step catalog backend i).2 = r := by
  have hdone {x : Exec Unit} (hx : (x r.session).2 = r.session) :
      ({ r with session := ((do x; return none : Exec (Option Page)) r.session).2 } : Running) =
        r := by
    rw [Exec.bind_pure_apply, hx]
  cases i with
  | session command =>
      cases command with
      | flush => exact hdone ((r.surroundings catalog backend).rests_flush _ hr)
      | commit => exact hdone ((r.surroundings catalog backend).rests_commit _ hr)
      | rollback => exact hdone ((r.surroundings catalog backend).rests_rollback _ hr)
      | beginNested name =>
          exact hdone ((r.surroundings catalog backend).rests_beginNested name _ hr)
      | release name => exact hdone ((r.surroundings catalog backend).rests_release name _ hr)
      | rollbackTo name =>
          exact hdone ((r.surroundings catalog backend).rollbackTo_of_named hnamed name)
      | leave name => exact hdone ((r.surroundings catalog backend).leave_of_named hnamed name)
      | _ => cases hi
  | setStanding b => cases hi
  | enter name b => cases hi
  | leave name => cases hi

end Running

end Typeahead
