import Mathlib.Order.Defs.Unbundled
import Typeahead.Session.Command

/-!
# What a computation does to a session

A computation that changes a state and may fail half-way is taken apart here: what each
way to build one gives at a state, and the rules for `Exec.Follows R x`, which says that
`x` leaves a state that is related to the one it found, whether it fails or not.  For a
reflexive and transitive relation that is enough to go through loops.
-/

namespace Typeahead

namespace Exec

variable {σ α β : Type}

theorem get_apply (s : σ) : (get : ExceptT Failure (StateM σ) σ) s = (.ok s, s) := rfl

theorem set_apply (t s : σ) :
    (set t : ExceptT Failure (StateM σ) PUnit) s = (.ok ⟨⟩, t) := rfl

theorem modify_apply (f : σ → σ) (s : σ) :
    (modify f : ExceptT Failure (StateM σ) PUnit) s = (.ok ⟨⟩, f s) := rfl

theorem bind_apply (x : ExceptT Failure (StateM σ) α) (f : α → ExceptT Failure (StateM σ) β)
    (s : σ) :
    (x >>= f) s =
      match x s with
      | (.ok a, t) => f a t
      | (.error e, t) => (.error e, t) := by
  change (match x s with | (r, t) => (ExceptT.bindCont f r : StateM σ _) t) = _
  rcases x s with ⟨r, t⟩
  cases r with
  | ok a => rfl
  | error e => rfl

theorem tryCatch_apply (x : ExceptT Failure (StateM σ) α)
    (f : Failure → ExceptT Failure (StateM σ) α) (s : σ) :
    (tryCatch x f) s =
      match x s with
      | (.ok a, t) => (.ok a, t)
      | (.error e, t) => f e t := by
  simp only [tryCatch, tryCatchThe, MonadExceptOf.tryCatch, ExceptT.tryCatch, ExceptT.mk, bind,
    StateT.bind]
  rcases x s with ⟨r, t⟩
  cases r with
  | ok a => rfl
  | error e => rfl

theorem forM_cons {γ : Type} (x : γ) (xs : List γ)
    (f : γ → ExceptT Failure (StateM σ) PUnit) :
    (x :: xs).forM f = (f x >>= fun _ => xs.forM f) := rfl

theorem bind_of_ok {x : ExceptT Failure (StateM σ) α} {s t : σ} {a : α}
    (h : x s = (.ok a, t)) (f : α → ExceptT Failure (StateM σ) β) : (x >>= f) s = f a t := by
  rw [bind_apply, h]

theorem bind_of_error {x : ExceptT Failure (StateM σ) α} {s t : σ} {e : Failure}
    (h : x s = (.error e, t)) (f : α → ExceptT Failure (StateM σ) β) :
    (x >>= f) s = (.error e, t) := by
  rw [bind_apply, h]

/-- A sequence gives a result when both parts do. -/
theorem bind_eq_ok {x : ExceptT Failure (StateM σ) α} {f : α → ExceptT Failure (StateM σ) β}
    {s u : σ} {b : β} (h : (x >>= f) s = (.ok b, u)) :
    ∃ a t, x s = (.ok a, t) ∧ f a t = (.ok b, u) := by
  rw [bind_apply] at h
  rcases hx : x s with ⟨r, t⟩
  rw [hx] at h
  cases r with
  | ok a => exact ⟨a, t, rfl, h⟩
  | error e => exact absurd (congrArg Prod.fst h) (by simp)

/-- A result that is added at the end does not depend on what was done. -/
theorem bind_pure_apply (x : ExceptT Failure (StateM σ) α) (b : β) (s : σ) :
    (x >>= fun _ => pure b) s = ((x s).1.map fun _ => b, (x s).2) := by
  rw [bind_apply]
  rcases x s with ⟨r, t⟩
  cases r with
  | ok a => rfl
  | error e => rfl

theorem forM_cons_ok {γ : Type} {x : γ} {xs : List γ}
    {f : γ → ExceptT Failure (StateM σ) PUnit} {s u : σ} {b : PUnit}
    (h : (x :: xs).forM f s = (.ok b, u)) :
    ∃ t, f x s = (.ok ⟨⟩, t) ∧ xs.forM f t = (.ok ⟨⟩, u) := by
  rw [forM_cons] at h
  obtain ⟨_, t, hfirst, hrest⟩ := bind_eq_ok h
  exact ⟨t, hfirst, hrest⟩

/-- Whether it fails or not, a computation leaves a state that is related to the one it
found. -/
def Follows (R : σ → σ → Prop) (x : ExceptT Failure (StateM σ) α) : Prop := ∀ s, R s (x s).2

section Rules

variable {R : σ → σ → Prop}

theorem follows_modify {f : σ → σ} (h : ∀ s, R s (f s)) :
    Follows R (modify f : ExceptT Failure (StateM σ) PUnit) := fun s => h s

/-- What is done next may depend on the state that is there. -/
theorem follows_get_bind {f : σ → ExceptT Failure (StateM σ) β} (hf : ∀ s, R s (f s s).2) :
    Follows R (get >>= f) := by
  intro s
  rw [bind_apply, get_apply]
  exact hf s

variable [IsPreorder σ R]

theorem follows_pure (a : α) : Follows R (pure a) := fun s => refl_of R s

theorem follows_throw (e : Failure) :
    Follows R (throw e : ExceptT Failure (StateM σ) α) := fun s => refl_of R s

/-- The rule for a sequence from a state on, where more is known of what the first part
gives. -/
theorem bind_follows {x : ExceptT Failure (StateM σ) α} {f : α → ExceptT Failure (StateM σ) β}
    {s : σ} (hx : R s (x s).2) (hf : ∀ a t, x s = (.ok a, t) → R t (f a t).2) :
    R s ((x >>= f) s).2 := by
  rw [bind_apply]
  rcases h : x s with ⟨r, t⟩
  rw [h] at hx
  cases r with
  | ok a => exact trans_of R hx (hf a t h)
  | error e => exact hx

theorem follows_bind {x : ExceptT Failure (StateM σ) α} {f : α → ExceptT Failure (StateM σ) β}
    (hx : Follows R x) (hf : ∀ a, Follows R (f a)) : Follows R (x >>= f) :=
  fun s => bind_follows (hx s) fun a t _ => hf a t

theorem follows_forM {γ : Type} {xs : List γ} {f : γ → ExceptT Failure (StateM σ) PUnit}
    (h : ∀ x ∈ xs, Follows R (f x)) : Follows R (xs.forM f) := by
  induction xs with
  | nil => exact follows_pure _
  | cons x xs ih =>
      rw [forM_cons]
      have hxs : ∀ y ∈ xs, Follows R (f y) := fun y hy => h y (List.mem_cons_of_mem _ hy)
      exact follows_bind (h x List.mem_cons_self) fun _ => ih hxs

end Rules

/-- What held before holds afterwards. -/
def Preserves (P : σ → Prop) (s t : σ) : Prop := P s → P t

instance (P : σ → Prop) : IsPreorder σ (Preserves P) where
  refl _ h := h
  trans _ _ _ h k := k ∘ h

theorem object_apply (id : Nat) (s : Session) :
    object id s =
      match s.object? id with
      | some o => (.ok o, s)
      | none => (.error (.missingKey (.int id)), s) := by
  unfold object
  rw [bind_apply, get_apply]
  dsimp only
  cases s.object? id with
  | some o => rfl
  | none => rfl

theorem ofExcept_apply (r : Except Failure α) (s : Session) : ofExcept r s = (r, s) := by
  cases r with
  | ok a => rfl
  | error e => rfl

theorem exchange_apply (x : Exchange α) (s : Session) :
    exchange x s = ((x s.sent).1, { s with sent := (x s.sent).2 }) := by
  unfold exchange
  rw [bind_apply, get_apply]
  dsimp only
  rw [bind_apply, set_apply]
  dsimp only
  cases (x s.sent).1 with
  | ok a => rfl
  | error e => rfl

/-- Whether it refuses or not, nothing changes; it does not refuse when the innermost
transaction is active. -/
theorem requireActive_apply (s : Session) :
    ∃ r, requireActive s = (r, s) ∧
      (r = .ok () ↔ ∀ t ∈ s.stack.head?, t.state = .active) := by
  unfold requireActive
  rw [bind_apply, get_apply]
  dsimp only
  cases s.stack with
  | nil => exact ⟨.ok (), rfl, by simp⟩
  | cons t rest =>
      dsimp only
      cases ht : t.state with
      | active => exact ⟨.ok (), rfl, by simp [ht]⟩
      | broken => exact ⟨.error (.session .pendingRollback), rfl, by simp [ht]⟩
      | committed => exact ⟨.error (.session .invalidRequest), rfl, by simp [ht]⟩

section Sessions

variable {R : Session → Session → Prop} [IsPreorder Session R]

theorem follows_object (id : Nat) : Follows R (object id) := by
  intro s
  rw [object_apply]
  cases s.object? id with
  | some o => exact refl_of R s
  | none => exact refl_of R s

theorem follows_named (name : String) : Follows R (named name) := by
  refine follows_get_bind fun s => ?_
  cases s.names.find? fun e => e.1 == name with
  | some e => exact refl_of R s
  | none => exact refl_of R s

theorem follows_requireActive : Follows R requireActive := by
  intro s
  obtain ⟨r, hr, _⟩ := requireActive_apply s
  rw [hr]
  exact refl_of R s

end Sessions

end Exec

namespace Surroundings

variable (c : Surroundings) {s : Session}

/-- Nothing is delivered while a savepoint is open. -/
theorem deliverAtRoot_of_inSavepoint (h : s.inSavepoint = true) :
    c.deliverAtRoot s = (.ok (), s) := by
  unfold deliverAtRoot
  rw [Exec.bind_apply, Exec.get_apply]
  dsimp only
  rw [if_pos h]
  rfl

theorem deliverAtRoot_of_not_inSavepoint (h : s.inSavepoint = false) :
    c.deliverAtRoot s = c.deliver s := by
  unfold deliverAtRoot
  rw [Exec.bind_apply, Exec.get_apply]
  dsimp only
  rw [h, if_neg Bool.false_ne_true]

/-- A release delivers nothing, since the savepoint is still open when it commits. -/
theorem releaseInnermost_eq :
    c.releaseInnermost = (do
      c.proceed
      modify Session.mergeInnermost) := by
  have hcommit : (do
      if (← get).inSavepoint then
        c.deliverAtRoot
        modify Session.mergeInnermost : Exec Unit) = modify Session.mergeInnermost := by
    funext s
    rw [Exec.bind_apply, Exec.get_apply, Exec.modify_apply]
    dsimp only
    cases h : s.inSavepoint with
    | true =>
        rw [if_pos rfl, Exec.bind_apply, c.deliverAtRoot_of_inSavepoint h]
        rfl
    | false =>
        have hmerge : s.mergeInnermost = s := by
          unfold Session.inSavepoint at h
          unfold Session.mergeInnermost
          rcases hstack : s.stack with _ | ⟨t, _ | ⟨u, rest⟩⟩
          · rfl
          · rfl
          · rw [hstack] at h
            cases h
        rw [if_neg Bool.false_ne_true, hmerge]
        rfl
  unfold releaseInnermost
  rw [hcommit]

end Surroundings

end Typeahead
