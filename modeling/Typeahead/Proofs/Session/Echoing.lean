import Typeahead.Proofs.Session.Ignoring
import Typeahead.Proofs.Session.Sending
import Typeahead.Session.Running

/-!
# The same again with another backend

A session knows of the past calls only how many there were: the backend answers a call by the
number of calls before it.  So a computation does the same after other calls and with another
backend, as long as that one gives the same answers from there on: `Exec.Echoes`.
-/

namespace Typeahead

/-- The session with other calls made. -/
def Session.withSent (s : Session) (sent : List Call) : Session := s.withWrites s.queue sent

/-- One backend answers after some calls what another one answers after other ones. -/
def Backend.Agrees (backend echo : Backend) (sent past : List Call) (calls : Nat) : Prop :=
  ∀ n < calls, echo (past.length + n) = backend (sent.length + n)

namespace Backend.Agrees

variable {backend echo : Backend} {sent past : List Call}

theorem mono {m n : Nat} (h : Agrees backend echo sent past n) (hmn : m ≤ n) :
    Agrees backend echo sent past m :=
  fun k hk => h k (Nat.lt_of_lt_of_le hk hmn)

/-- After several of the calls the backends agree on the other ones. -/
theorem after {n : Nat} (new : List Call)
    (h : Agrees backend echo sent past (new.length + n)) :
    Agrees backend echo (sent ++ new) (past ++ new) n := by
  intro k hk
  rw [List.length_append, List.length_append, Nat.add_assoc, Nat.add_assoc]
  exact h _ (Nat.add_lt_add_left hk _)

end Backend.Agrees

namespace Exchange

variable {α β : Type} {backend echo : Backend}

/-- The second exchange does after other calls what the first one does, as long as its backend
gives the same answers. -/
def Echoes (backend echo : Backend) (x y : Exchange α) : Prop :=
  ∀ sent, ∃ new, (x sent).2 = sent ++ new ∧ ∀ past,
    backend.Agrees echo sent past new.length → y past = ((x sent).1, past ++ new)

theorem echoes_lift (r : Except Failure α) : Echoes backend echo (lift r) (lift r) :=
  fun sent => ⟨[], (List.append_nil sent).symm, fun past _ => by rw [List.append_nil]; rfl⟩

theorem echoes_call (backend echo : Backend) (c : Call) :
    Echoes backend echo (call backend c) (call echo c) := by
  intro sent
  refine ⟨[c], call_sent backend c sent, fun past hagrees => ?_⟩
  have hanswer : echo past.length = backend sent.length := hagrees 0 Nat.one_pos
  unfold call
  rw [hanswer]
  cases backend sent.length with
  | ok reply => rfl
  | error fault => rfl

theorem echoes_andThen {x y : Exchange α} {f g : α → Exchange β} (hx : Echoes backend echo x y)
    (hf : ∀ a, Echoes backend echo (f a) (g a)) :
    Echoes backend echo (x.andThen f) (y.andThen g) := by
  intro sent
  obtain ⟨new, hsent, hy⟩ := hx sent
  unfold andThen
  rcases hresult : x sent with ⟨r, sent'⟩
  rw [hresult] at hsent hy
  cases r with
  | error e => exact ⟨new, hsent, fun past h => by rw [hy past h]⟩
  | ok a =>
      obtain rfl : sent' = sent ++ new := hsent
      obtain ⟨more, hmore, hg⟩ := hf a (sent ++ new)
      refine ⟨new ++ more, hmore.trans (List.append_assoc _ _ _), fun past hagrees => ?_⟩
      rw [List.length_append] at hagrees
      rw [hy past (hagrees.mono (Nat.le_add_right _ _)), ← List.append_assoc]
      exact hg (past ++ new) (hagrees.after new)

end Exchange

namespace Index

variable (index : Index) (client : Client) (backend echo : Backend)

theorem echoes_sendAction (enabled : Bool) (action : Action) (id body : Value) :
    Exchange.Echoes backend echo (index.sendAction client enabled backend action id body)
      (index.sendAction client enabled echo action id body) := by
  unfold sendAction
  cases enabled with
  | false => exact Exchange.echoes_lift _
  | true =>
      refine Exchange.echoes_andThen ?_ fun _ => Exchange.echoes_lift _
      cases action with
      | index =>
          exact Exchange.echoes_andThen (Exchange.echoes_call _ _ _) fun _ => Exchange.echoes_lift _
      | update =>
          exact Exchange.echoes_andThen (Exchange.echoes_call _ _ _) fun _ => Exchange.echoes_lift _
      | delete =>
          exact Exchange.echoes_andThen (Exchange.echoes_call _ _ _) fun _ => Exchange.echoes_lift _

theorem echoes_search (text : Value) (options : Options) :
    Exchange.Echoes backend echo (index.search client backend text options)
      (index.search client echo text options) := by
  unfold search
  cases index.buildQuery text options with
  | error e => exact Exchange.echoes_lift _
  | ok body =>
      exact Exchange.echoes_andThen (Exchange.echoes_call _ _ _) fun _ => Exchange.echoes_lift _

end Index

namespace Exec

variable {α β : Type} {backend echo : Backend}

/-- The second computation does in a session with other calls made what the first one does, as
long as its backend gives the same answers. -/
def Echoes (backend echo : Backend) (x y : Exec α) : Prop :=
  ∀ s : Session, ∃ new, (x s).2.sent = s.sent ++ new ∧ ∀ past,
    backend.Agrees echo s.sent past new.length →
      y (s.withSent past) = ((x s).1, (x s).2.withSent (past ++ new))

/-- What leaves the writes alone echoes itself. -/
theorem Ignores.echoes {x : Exec α} (hx : Ignores x) : Echoes backend echo x x := by
  intro s
  obtain ⟨hqueue, hsent⟩ := hx.writes_eq s
  refine ⟨[], by rw [hsent, List.append_nil], fun past _ => ?_⟩
  rw [Session.withSent, hx s s.queue past, Session.withSent, hqueue, List.append_nil]

theorem echoes_modify {f : Session → Session}
    (hf : ∀ s past, f (s.withSent past) = (f s).withSent past) :
    Echoes backend echo (modify f) (modify f) := by
  intro s
  have hself : f s = (f s).withSent s.sent := hf s s.sent
  have hsent := congrArg Session.sent hself
  refine ⟨[], by rw [List.append_nil]; exact hsent, fun past _ => ?_⟩
  rw [modify_apply, modify_apply, hf, List.append_nil]

theorem echoes_bind {x y : Exec α} {f g : α → Exec β} (hx : Echoes backend echo x y)
    (hf : ∀ a, Echoes backend echo (f a) (g a)) : Echoes backend echo (x >>= f) (y >>= g) := by
  intro s
  obtain ⟨new, hsent, hy⟩ := hx s
  rw [bind_apply]
  rcases hresult : x s with ⟨r, t⟩
  rw [hresult] at hsent hy
  cases r with
  | error e => exact ⟨new, hsent, fun past h => by rw [bind_apply, hy past h]⟩
  | ok a =>
      obtain ⟨more, hmore, hg⟩ := hf a t
      rw [show t.sent = s.sent ++ new from hsent] at hmore hg
      refine ⟨new ++ more, hmore.trans (List.append_assoc _ _ _), fun past hagrees => ?_⟩
      rw [List.length_append] at hagrees
      rw [bind_apply, hy past (hagrees.mono (Nat.le_add_right _ _)), ← List.append_assoc]
      exact hg (past ++ new) (hagrees.after new)

/-- What is done next may depend on the state, but not on the calls made. -/
theorem echoes_get_bind {f g : Session → Exec β} (hf : ∀ s, Echoes backend echo (f s) (g s))
    (hg : ∀ s past, g (s.withSent past) = g s) :
    Echoes backend echo (get >>= f) (get >>= g) := by
  intro s
  obtain ⟨new, hsent, hy⟩ := hf s s
  refine ⟨new, by rw [bind_apply, get_apply]; exact hsent, fun past hagrees => ?_⟩
  rw [bind_apply, get_apply, bind_apply, get_apply]
  dsimp only
  rw [hg]
  exact hy past hagrees

theorem echoes_forM {γ : Type} {xs : List γ} {f g : γ → Exec Unit}
    (hf : ∀ x ∈ xs, Echoes backend echo (f x) (g x)) :
    Echoes backend echo (xs.forM f) (xs.forM g) := by
  induction xs with
  | nil => exact (ignores_pure _).echoes
  | cons x xs ih =>
      rw [forM_cons, forM_cons]
      have hxs : ∀ y ∈ xs, Echoes backend echo (f y) (g y) := fun y hy =>
        hf y (List.mem_cons_of_mem x hy)
      exact echoes_bind (hf x List.mem_cons_self) fun _ => ih hxs

theorem echoes_tryCatch {x y : Exec α} {f g : Failure → Exec α} (hx : Echoes backend echo x y)
    (hf : ∀ e, Echoes backend echo (f e) (g e)) :
    Echoes backend echo (tryCatch x f) (tryCatch y g) := by
  intro s
  obtain ⟨new, hsent, hy⟩ := hx s
  rw [tryCatch_apply]
  rcases hresult : x s with ⟨r, t⟩
  rw [hresult] at hsent hy
  cases r with
  | ok a => exact ⟨new, hsent, fun past h => by rw [tryCatch_apply, hy past h]⟩
  | error e =>
      obtain ⟨more, hmore, hg⟩ := hf e t
      rw [show t.sent = s.sent ++ new from hsent] at hmore hg
      refine ⟨new ++ more, hmore.trans (List.append_assoc _ _ _), fun past hagrees => ?_⟩
      rw [List.length_append] at hagrees
      rw [tryCatch_apply, hy past (hagrees.mono (Nat.le_add_right _ _)), ← List.append_assoc]
      exact hg (past ++ new) (hagrees.after new)

theorem echoes_exchange {x y : Exchange α} (hx : Exchange.Echoes backend echo x y) :
    Echoes backend echo (exchange x) (exchange y) := by
  intro s
  obtain ⟨new, hsent, hy⟩ := hx s.sent
  refine ⟨new, by rw [exchange_apply]; exact hsent, fun past hagrees => ?_⟩
  have hpast : y (s.withSent past).sent = ((x s.sent).1, past ++ new) := hy past hagrees
  rw [exchange_apply, exchange_apply, hpast]
  rfl

end Exec

end Typeahead
