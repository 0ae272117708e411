import Typeahead.Proofs.Session.Endings

/-!
# The delivery of writes

The waiting writes are sent in their order, up to the first one that fails, `Surroundings.Sends`.
A commit ends with such a delivery, `Surroundings.Settled`: the queue is empty whether it
succeeds or not, and when a write fails the root transaction stays, stuck.
-/

namespace Typeahead

namespace Surroundings

open Session

variable (c : Surroundings)

/-- What comes of sending writes in their order after several calls: a part of them is sent, and
the first one that fails is the last of these. -/
structure Sends (sent : List Call) (queue : List PendingWrite) (outcome : Except Failure Unit)
    (ws : List PendingWrite) : Prop where
  part : ws <+: queue
  disabled : c.enabled = false → ws = []
  enabled : c.enabled = true → outcome = .ok () → ws = queue
  accepted : (∀ w ∈ queue, w.Accepted c.backend) → outcome = .ok ()
  failing : c.enabled = true → ∀ i e, PendingWrite.FailsAt c.backend sent queue i e →
    outcome = .error e ∧ ws = queue.take (i + 1)
  fails : c.enabled = true → ∀ e, outcome = .error e →
    ∃ i, PendingWrite.FailsAt c.backend sent queue i e

variable {c}

namespace Sends

variable {sent : List Call} {w : PendingWrite} {queue ws : List PendingWrite}
  {outcome : Except Failure Unit}

theorem nil : c.Sends sent [] (.ok ()) [] where
  part := List.prefix_refl []
  disabled _ := rfl
  enabled _ _ := rfl
  accepted _ := rfl
  failing _ _ _ h := absurd rfl h.ne_nil
  fails _ _ h := nomatch h

/-- While writes are switched off nothing is sent. -/
theorem of_disabled (hdisabled : c.enabled = false)
    (haccepted : (∀ w ∈ queue, w.Accepted c.backend) → outcome = .ok ()) :
    c.Sends sent queue outcome [] := by
  have hoff {P : Prop} (henabled : c.enabled = true) : P := by
    rw [hdisabled] at henabled
    cases henabled
  exact {
    part := List.nil_prefix
    disabled := fun _ => rfl
    enabled := fun henabled => hoff henabled
    accepted := haccepted
    failing := fun henabled => hoff henabled
    fails := fun henabled => hoff henabled }

/-- Nothing is sent behind a write that fails. -/
theorem stop (henabled : c.enabled = true) {e : Failure}
    (hfails : w.answer c.backend sent = .error e) : c.Sends sent (w :: queue) (.error e) [w] where
  part := ⟨queue, rfl⟩
  disabled hdisabled := by
    rw [henabled] at hdisabled
    cases hdisabled
  enabled _ h := nomatch h
  accepted haccepted := by
    obtain ⟨b, hb⟩ := haccepted w List.mem_cons_self sent
    rw [PendingWrite.answer, hb] at hfails
    cases hfails
  failing _ i e' h := by
    cases i with
    | zero =>
        rw [PendingWrite.FailsAt.zero_iff, hfails] at h
        exact ⟨by rw [Except.error.inj h], rfl⟩
    | succ i =>
        obtain ⟨⟨b, hb⟩, _⟩ := PendingWrite.FailsAt.succ_iff.mp h
        rw [hfails] at hb
        cases hb
  fails _ e' h := by
    rw [← Except.error.inj h]
    exact ⟨0, PendingWrite.FailsAt.zero_iff.mpr hfails⟩

/-- Behind a write that is taken the others go on after its call. -/
theorem cons (henabled : c.enabled = true) (htaken : ∃ b, w.answer c.backend sent = .ok b)
    (h : c.Sends (sent ++ [w.call]) queue outcome ws) :
    c.Sends sent (w :: queue) outcome (w :: ws) where
  part := List.cons_prefix_cons.mpr ⟨rfl, h.part⟩
  disabled hdisabled := by
    rw [henabled] at hdisabled
    cases hdisabled
  enabled _ hok := by rw [h.enabled henabled hok]
  accepted haccepted :=
    h.accepted fun v hv => haccepted v (List.mem_cons_of_mem w hv)
  failing _ i e hfails := by
    cases i with
    | zero =>
        obtain ⟨b, hb⟩ := htaken
        rw [PendingWrite.FailsAt.zero_iff, hb] at hfails
        cases hfails
    | succ i =>
        obtain ⟨houtcome, hws⟩ := h.failing henabled i e (PendingWrite.FailsAt.succ_iff.mp hfails).2
        exact ⟨houtcome, by rw [hws, List.take_succ_cons]⟩
  fails _ e he := by
    obtain ⟨i, hi⟩ := h.fails henabled e he
    exact ⟨i + 1, PendingWrite.FailsAt.succ_iff.mpr ⟨htaken, hi⟩⟩

end Sends

variable (c)

/-- Writes are sent in order up to the first one that fails. -/
theorem forM_send_spec (queue : List PendingWrite) (s : Session) :
    ∃ outcome ws, queue.forM (fun w => c.send w.searchable w.action w.id w.body) s =
        (outcome, { s with sent := s.sent ++ ws.map PendingWrite.call }) ∧
      c.Sends s.sent queue outcome ws := by
  induction queue generalizing s with
  | nil =>
      refine ⟨.ok (), [], ?_, .nil⟩
      rw [List.map_nil, List.append_nil]
      rfl
  | cons w queue ih =>
      rw [Exec.forM_cons, Exec.bind_apply]
      obtain ⟨first, hfirst, htaken, hanswer⟩ := c.send_spec w s
      rw [hfirst]
      cases henabled : c.enabled with
      | false =>
          cases first with
          | error e =>
              refine ⟨.error e, [], by simp, .of_disabled henabled fun haccepted => ?_⟩
              cases htaken (haccepted w List.mem_cons_self)
          | ok u =>
              dsimp only
              obtain ⟨outcome, ws, hrest, hsends⟩ :=
                ih { s with sent := s.sent ++ if false = true then [w.call] else [] }
              refine ⟨outcome, [], ?_, .of_disabled henabled fun haccepted => ?_⟩
              · rw [hrest, hsends.disabled henabled]
                simp
              · exact hsends.accepted fun v hv => haccepted v (List.mem_cons_of_mem w hv)
      | true =>
          have hanswer := hanswer henabled
          cases first with
          | error e => exact ⟨.error e, [w], rfl, .stop henabled hanswer⟩
          | ok u =>
              dsimp only
              obtain ⟨outcome, ws, hrest, hsends⟩ :=
                ih { s with sent := s.sent ++ if true = true then [w.call] else [] }
              refine ⟨outcome, w :: ws, ?_, .cons henabled hanswer hsends⟩
              rw [hrest]
              simp

variable {c} {s t : Session}

/-- With no savepoint open, a delivery that succeeds sends the whole queue. -/
theorem deliverAtRoot_ok (henabled : c.enabled = true) (hroot : s.inSavepoint = false)
    (h : c.deliverAtRoot s = (.ok (), t)) :
    t = { s with queue := [], sent := s.sent ++ s.queue.map PendingWrite.call } := by
  rw [c.deliverAtRoot_of_not_inSavepoint hroot] at h
  unfold deliver at h
  rw [Exec.bind_apply, Exec.get_apply] at h
  dsimp only at h
  rw [Exec.bind_apply, Exec.set_apply] at h
  dsimp only at h
  obtain ⟨outcome, ws, hsend, hsends⟩ := c.forM_send_spec s.queue { s with queue := [] }
  rw [hsend] at h
  obtain ⟨rfl, rfl⟩ := Prod.mk.inj h
  rw [hsends.enabled henabled rfl]

/-- The end of a commit.  It sends a part of the queue, and when all of it was sent, the
root transaction is gone. -/
structure Settled (c : Surroundings) (root : Nat) (s t : Session) (outcome : Except Failure Unit)
    (sent : List PendingWrite) : Prop extends Sends c s.sent s.queue outcome sent where
  session : t =
    { s with stack := t.stack, queue := [], sent := s.sent ++ sent.map PendingWrite.call }
  outline : t.outline = match outcome with
    | .ok _ => []
    | .error _ => [(root, TransactionState.committed)]

namespace Settled

variable {root : Nat} {outcome : Except Failure Unit} {sent : List PendingWrite}

theorem calls (h : Settled c root s t outcome sent) :
    t.sent = s.sent ++ sent.map PendingWrite.call := by
  rw [h.session]

theorem queue (h : Settled c root s t outcome sent) : t.queue = [] := by
  rw [h.session]

theorem created (h : Settled c root s t outcome sent) : t.created = s.created := by
  rw [h.session]

theorem savepoints (h : Settled c root s t outcome sent) : t.savepoints = s.savepoints := by
  rw [h.session]

theorem sound (h : Settled c root s t outcome sent) (hs : s.Sound) : t.Sound := by
  rw [h.session]
  exact hs.of_objects_eq rfl

theorem writes (h : Settled c root s t outcome sent) :
    t.writes = s.writes ++ sent.map PendingWrite.call := by
  rw [Session.writes, Session.writes, h.calls, List.filter_append, PendingWrite.filter_map_call]

end Settled

variable (c) in
theorem settle_spec {s : Session} {root : Nat} (hs : s.outline = [(root, .active)]) :
    ∃ outcome t sent, c.settle s = (outcome, t) ∧ Settled c root s t outcome sent := by
  obtain ⟨r, hstack⟩ : ∃ r, s.stack = [r] := by
    refine List.length_eq_one_iff.mp ?_
    rw [← Session.length_outline, hs, List.length_singleton]
  have hid : r.id = root := by
    rw [Session.outline, hstack] at hs
    simpa using congrArg (List.map Prod.fst) hs
  obtain ⟨outcome, sent, hsend, hsends⟩ :=
    c.forM_send_spec s.queue { s with stack := [{ r with state := .committed }], queue := [] }
  have hdeliver : c.settle s = (do
      s.queue.forM (fun w => c.send w.searchable w.action w.id w.body)
      modify Session.pop : Exec Unit)
        { s with stack := [{ r with state := .committed }], queue := [] } := by
    rw [settle, Exec.bind_apply, Exec.modify_apply, Session.modifyInnermost, hstack]
    dsimp only
    rw [Exec.bind_apply, c.deliverAtRoot_of_not_inSavepoint rfl, Exec.bind_apply,
      Surroundings.deliver, Exec.bind_apply, Exec.get_apply]
    rfl
  rw [Exec.bind_apply, hsend] at hdeliver
  cases outcome with
  | error e =>
      refine ⟨.error e, _, sent, hdeliver, { hsends with session := rfl, outline := ?_ }⟩
      rw [← hid]
      rfl
  | ok u => exact ⟨.ok u, _, sent, hdeliver, { hsends with session := rfl, outline := rfl }⟩

end Surroundings

end Typeahead
