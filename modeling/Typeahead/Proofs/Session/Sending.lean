import Typeahead.Proofs.Session.Idle

/-!
# Sending a write

Each write is one call.  It is made when writes are switched on, whether the client takes
it or not, and it is left out when they are switched off.
-/

namespace Typeahead

namespace PendingWrite

/-- The call that sends a write. -/
def call (w : PendingWrite) : Call :=
  let target := w.searchable.index.name
  let refresh := w.searchable.client.settings.connection.refresh
  match w.action with
  | .index => .index target w.id w.body refresh
  | .update => .update target w.id (.dict [(.text "doc", w.body)]) refresh
  | .delete => .delete target w.id refresh

/-- What the client answers to a write after several calls: whether it was sent. -/
def answer (backend : Backend) (sent : List Call) (w : PendingWrite) : Except Failure Bool :=
  (w.searchable.index.sendAction w.searchable.client true backend w.action w.id w.body sent).1

/-- The client succeeds in sending a write, whatever was sent before. -/
def Accepted (backend : Backend) (w : PendingWrite) : Prop :=
  ∀ sent, ∃ b, (w.searchable.index.sendAction w.searchable.client true backend w.action w.id w.body
    sent).1 = .ok b

theorem isWrite_call (w : PendingWrite) : w.call.isWrite = true := by
  unfold call
  cases w.action with
  | index => rfl
  | update => rfl
  | delete => rfl

theorem filter_map_call (ws : List PendingWrite) :
    (ws.map call).filter Call.isWrite = ws.map call := by
  refine List.filter_eq_self.mpr fun x hx => ?_
  obtain ⟨w, _, rfl⟩ := List.mem_map.mp hx
  exact w.isWrite_call

/-- When writes are sent in their order after several calls, the one at a position is the first
that the client does not take. -/
structure FailsAt (backend : Backend) (sent : List Call) (ws : List PendingWrite) (i : Nat)
    (e : Failure) : Prop where
  earlier : ∀ k < i, ∀ w, ws[k]? = some w →
    ∃ b, w.answer backend (sent ++ (ws.take k).map call) = .ok b
  here : ∃ w, ws[i]? = some w ∧ w.answer backend (sent ++ (ws.take i).map call) = .error e

namespace FailsAt

variable {backend : Backend} {sent : List Call} {w : PendingWrite} {ws : List PendingWrite}
  {i : Nat} {e : Failure}

theorem ne_nil (h : FailsAt backend sent ws i e) : ws ≠ [] := by
  rintro rfl
  obtain ⟨w, hw, _⟩ := h.here
  cases hw

theorem zero_iff : FailsAt backend sent (w :: ws) 0 e ↔ w.answer backend sent = .error e := by
  constructor
  · intro h
    obtain ⟨v, hv, hfails⟩ := h.here
    obtain rfl := Option.some.inj hv
    rwa [List.take_zero, List.map_nil, List.append_nil] at hfails
  · intro h
    refine ⟨fun k hk => absurd hk (Nat.not_lt_zero k), w, rfl, ?_⟩
    rwa [List.take_zero, List.map_nil, List.append_nil]

theorem succ_iff : FailsAt backend sent (w :: ws) (i + 1) e ↔
    (∃ b, w.answer backend sent = .ok b) ∧ FailsAt backend (sent ++ [w.call]) ws i e := by
  have hcalls (k : Nat) : sent ++ ((w :: ws).take (k + 1)).map call =
      sent ++ [w.call] ++ (ws.take k).map call := by simp
  constructor
  · intro h
    refine ⟨?_, fun k hk v hv => ?_, ?_⟩
    · simpa using h.earlier 0 (Nat.succ_pos i) w rfl
    · rw [← hcalls]
      exact h.earlier (k + 1) (Nat.succ_lt_succ hk) v hv
    · rw [← hcalls]
      exact h.here
  · rintro ⟨hfirst, h⟩
    refine ⟨fun k hk v hv => ?_, ?_⟩
    · cases k with
      | zero =>
          obtain rfl := Option.some.inj hv
          simpa using hfirst
      | succ k =>
          rw [hcalls]
          exact h.earlier k (Nat.lt_of_succ_lt_succ hk) v hv
    · rw [hcalls]
      exact h.here

end FailsAt

end PendingWrite

namespace Exchange

theorem call_sent (backend : Backend) (c : Call) (sent : List Call) :
    (call backend c sent).2 = sent ++ [c] := by
  unfold call
  cases backend sent.length with
  | ok reply => rfl
  | error fault => rfl

/-- An outcome that is worked out makes no call. -/
theorem andThen_lift_sent {α β : Type} (x : Exchange α) (f : α → Except Failure β)
    (sent : List Call) : (x.andThen (fun a => lift (f a)) sent).2 = (x sent).2 := by
  unfold andThen
  rcases x sent with ⟨outcome, sent'⟩
  cases outcome with
  | ok a => rfl
  | error e => rfl

/-- A sequence gives a result when both parts do. -/
theorem andThen_eq_ok {α β : Type} {x : Exchange α} {f : α → Exchange β} {sent : List Call} {b : β}
    (h : (x.andThen f sent).1 = .ok b) :
    ∃ a sent', x sent = (.ok a, sent') ∧ (f a sent').1 = .ok b := by
  unfold andThen at h
  rcases hx : x sent with ⟨outcome, sent'⟩
  rw [hx] at h
  cases outcome with
  | ok a => exact ⟨a, sent', rfl, h⟩
  | error e => cases h

end Exchange

/-- A write that the client takes is left out without a failure while writes are switched off. -/
theorem PendingWrite.Accepted.left_out {backend : Backend} {w : PendingWrite}
    (h : w.Accepted backend) (sent : List Call) :
    (w.searchable.index.sendAction w.searchable.client false backend w.action w.id w.body sent).1
      = .ok false := by
  obtain ⟨b, hb⟩ := h sent
  obtain ⟨v, sent', hwrite, _⟩ := Exchange.andThen_eq_ok hb
  have hnoted (call : Call) (hcall : ((Exchange.call backend call).andThen fun reply =>
      Exchange.lift (Client.noteWrite w.searchable.index.name w.id reply)) sent = (.ok v, sent')) :
      ∃ reply, Client.noteWrite w.searchable.index.name w.id reply = .ok v := by
    obtain ⟨reply, _, _, hreply⟩ := Exchange.andThen_eq_ok (congrArg Prod.fst hcall)
    exact ⟨reply, hreply⟩
  obtain ⟨reply, hreply⟩ : ∃ reply,
      Client.noteWrite w.searchable.index.name w.id reply = .ok v := by
    cases haction : w.action with
    | index => exact hnoted _ (by rw [haction] at hwrite; exact hwrite)
    | update => exact hnoted _ (by rw [haction] at hwrite; exact hwrite)
    | delete => exact hnoted _ (by rw [haction] at hwrite; exact hwrite)
  -- the id and the name of the index are noted either way
  unfold Client.noteWrite at hreply
  unfold Index.sendAction Exchange.lift
  cases hid : w.id.requireWritable with
  | error e =>
      rw [hid] at hreply
      cases hreply
  | ok u =>
      cases hname : w.searchable.index.name.requireWritable with
      | error e =>
          rw [hid, hname] at hreply
          cases hreply
      | ok u => rfl

namespace Surroundings

open Session

variable (c : Surroundings)

theorem sendAction_sent (w : PendingWrite) (sent : List Call) :
    (w.searchable.index.sendAction w.searchable.client c.enabled c.backend w.action w.id w.body
      sent).2 = sent ++ if c.enabled then [w.call] else [] := by
  unfold Index.sendAction
  cases c.enabled with
  | false => exact (List.append_nil sent).symm
  | true =>
      simp only [if_true]
      rw [Exchange.andThen_lift_sent]
      unfold PendingWrite.call
      cases w.action with
      | index => exact (Exchange.andThen_lift_sent _ _ sent).trans (Exchange.call_sent _ _ sent)
      | update => exact (Exchange.andThen_lift_sent _ _ sent).trans (Exchange.call_sent _ _ sent)
      | delete => exact (Exchange.andThen_lift_sent _ _ sent).trans (Exchange.call_sent _ _ sent)

theorem send_spec (w : PendingWrite) (s : Session) :
    ∃ outcome, c.send w.searchable w.action w.id w.body s =
        (outcome, { s with sent := s.sent ++ if c.enabled then [w.call] else [] }) ∧
      (w.Accepted c.backend → outcome = .ok ()) ∧
      (c.enabled = true → match outcome with
        | .ok _ => ∃ b, w.answer c.backend s.sent = .ok b
        | .error e => w.answer c.backend s.sent = .error e) := by
  have hsent := c.sendAction_sent w s.sent
  rcases hx : w.searchable.index.sendAction w.searchable.client c.enabled c.backend w.action w.id
    w.body s.sent with ⟨outcome, sent⟩
  rw [hx] at hsent
  unfold send
  rw [Exec.bind_apply, Exec.exchange_apply, hx]
  have hanswer (henabled : c.enabled = true) : w.answer c.backend s.sent = outcome := by
    rw [PendingWrite.answer, ← henabled, hx]
  have htaken (haccepted : w.Accepted c.backend) : ∃ b, outcome = .ok b := by
    cases henabled : c.enabled with
    | false =>
        have hleft := haccepted.left_out s.sent
        rw [← henabled, hx] at hleft
        exact ⟨_, hleft⟩
    | true =>
        rw [← hanswer henabled]
        exact haccepted s.sent
  cases outcome with
  | ok b =>
      exact ⟨.ok (), by rw [← hsent]; rfl, fun _ => rfl, fun h => ⟨b, hanswer h⟩⟩
  | error e =>
      refine ⟨.error e, by rw [← hsent], fun haccepted => ?_, hanswer⟩
      obtain ⟨b, hb⟩ := htaken haccepted
      cases hb

end Surroundings

end Typeahead
