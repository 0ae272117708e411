import Mathlib.Data.List.Forall2
import Typeahead.Failure

/-!
# Outcomes in sequence

When a chain of computations that may fail gives a result: every link of it gives one.
For the items of a list the results are lined up with the items, as `List.Forall₂`.  Two chains
are compared link by link, as `Outcome.Agree`.  Writing a value down is the link that most chains
end with.
-/

namespace Typeahead

namespace Outcome

variable {α β ε : Type}

theorem bind_eq_ok_iff (x : Except ε α) (f : α → Except ε β) (b : β) :
    x >>= f = .ok b ↔ ∃ a, x = .ok a ∧ f a = .ok b := by
  cases x with
  | error e => simp [Bind.bind, Except.bind]
  | ok a => simp [Bind.bind, Except.bind]

theorem pure_eq_ok_iff (a b : α) : (pure a : Except ε α) = .ok b ↔ a = b := by
  simp [Pure.pure, Except.pure]

theorem eq_ok_of_toOption {x : Except ε α} {a : α} (h : x.toOption = some a) : x = .ok a := by
  cases x with
  | error e => cases h
  | ok b => exact congrArg Except.ok (Option.some.inj h)

theorem mapM_eq_ok_iff (f : α → Except ε β) (xs : List α) (ys : List β) :
    xs.mapM f = .ok ys ↔ List.Forall₂ (fun x y => f x = .ok y) xs ys := by
  induction xs generalizing ys with
  | nil =>
      rw [List.mapM_nil, pure_eq_ok_iff, List.forall₂_nil_left_iff]
      exact eq_comm
  | cons x xs ih =>
      rw [List.mapM_cons, bind_eq_ok_iff, List.forall₂_cons_left_iff]
      constructor
      · rintro ⟨y, hy, h⟩
        obtain ⟨zs, hzs, h⟩ := (bind_eq_ok_iff _ _ _).mp h
        have heq := (pure_eq_ok_iff _ _).mp h
        exact ⟨y, zs, hy, (ih zs).mp hzs, heq.symm⟩
      · rintro ⟨y, zs, hy, hzs, rfl⟩
        refine ⟨y, hy, (bind_eq_ok_iff _ _ _).mpr ⟨zs, (ih zs).mpr hzs, rfl⟩⟩

/-- A list has the results that its items have, when these are known. -/
theorem mapM_eq_ok_iff_map {f : α → Except ε β} {P : α → Prop} {g : α → β} {xs : List α}
    (h : ∀ x ∈ xs, ∀ y, f x = .ok y ↔ P x ∧ g x = y) (ys : List β) :
    xs.mapM f = .ok ys ↔ (∀ x ∈ xs, P x) ∧ xs.map g = ys := by
  induction xs generalizing ys with
  | nil => simp [pure_eq_ok_iff]
  | cons x xs ih =>
      have hx := h x List.mem_cons_self
      have hxs := ih fun z hz => h z (List.mem_cons_of_mem x hz)
      simp only [List.mapM_cons, bind_eq_ok_iff, pure_eq_ok_iff, hx, hxs, List.forall_mem_cons,
        List.map_cons]
      constructor
      · rintro ⟨_, ⟨hread, rfl⟩, _, ⟨hreads, rfl⟩, rfl⟩
        exact ⟨⟨hread, hreads⟩, rfl⟩
      · rintro ⟨⟨hread, hreads⟩, rfl⟩
        exact ⟨_, ⟨hread, rfl⟩, _, ⟨hreads, rfl⟩, rfl⟩

/-- Every item has its result among the results. -/
theorem exists_of_mapM_eq_ok {f : α → Except ε β} {xs : List α} {ys : List β}
    (h : xs.mapM f = .ok ys) {x : α} (hx : x ∈ xs) : ∃ y ∈ ys, f x = .ok y := by
  induction (mapM_eq_ok_iff f xs ys).mp h with
  | nil => cases hx
  | @cons x' y xs ys hy hrest ih =>
      rcases List.mem_cons.mp hx with rfl | hx
      · exact ⟨y, List.mem_cons_self, hy⟩
      · obtain ⟨z, hz, hfz⟩ := ih ((mapM_eq_ok_iff f xs ys).mpr hrest) hx
        exact ⟨z, List.mem_cons_of_mem _ hz, hfz⟩

/-- The result of an item stands where the item stood. -/
theorem getElem?_of_mapM {f : α → Except ε β} {xs : List α} {ys : List β}
    (h : xs.mapM f = .ok ys) {i : Nat} {x : α} (hx : xs[i]? = some x) :
    ∃ y, ys[i]? = some y ∧ f x = .ok y := by
  induction (mapM_eq_ok_iff f xs ys).mp h generalizing i with
  | nil => cases hx
  | cons hy hrest ih =>
      cases i with
      | zero =>
          obtain rfl := Option.some.inj hx
          exact ⟨_, rfl, hy⟩
      | succ i => exact ih ((mapM_eq_ok_iff f _ _).mpr hrest) hx

/-- A list has results when every item has one. -/
theorem exists_mapM_iff (f : α → Except ε β) (xs : List α) :
    (∃ ys, xs.mapM f = .ok ys) ↔ ∀ x ∈ xs, ∃ y, f x = .ok y := by
  induction xs with
  | nil => simp [pure_eq_ok_iff]
  | cons x xs ih =>
      rw [List.forall_mem_cons, ← ih]
      simp only [List.mapM_cons, bind_eq_ok_iff, pure_eq_ok_iff]
      constructor
      · rintro ⟨_, y, hy, zs, hzs, _⟩
        exact ⟨⟨y, hy⟩, zs, hzs⟩
      · rintro ⟨⟨y, hy⟩, zs, hzs⟩
        exact ⟨_, y, hy, zs, hzs, rfl⟩

/-- The results of a list are those of its items. -/
theorem forall_mem_of_mapM {f : α → Except ε β} {xs : List α} {ys : List β}
    (h : xs.mapM f = .ok ys) (P : β → Prop) :
    (∀ y ∈ ys, P y) ↔ ∀ x ∈ xs, ∀ y, f x = .ok y → P y := by
  induction (mapM_eq_ok_iff f xs ys).mp h with
  | nil => simp
  | @cons x y xs ys hy hrest ih =>
      rw [List.forall_mem_cons, List.forall_mem_cons, ih ((mapM_eq_ok_iff f xs ys).mpr hrest)]
      simp [hy]

/-- Both computations fail in the same way, or both give results, and these are related. -/
inductive Agree {γ : Type} (R : α → γ → Prop) : Except ε α → Except ε γ → Prop
  | error (e : ε) : Agree R (.error e) (.error e)
  | ok {a : α} {c : γ} (h : R a c) : Agree R (.ok a) (.ok c)

theorem agree_of_eq {x y : Except ε α} (h : x = y) : Agree (· = ·) x y := by
  subst h
  cases x with
  | error e => exact .error e
  | ok a => exact .ok rfl

theorem agree_bind {γ δ : Type} {R : α → γ → Prop} {Q : β → δ → Prop} {x : Except ε α}
    {y : Except ε γ} {f : α → Except ε β} {g : γ → Except ε δ} (h : Agree R x y)
    (hf : ∀ a c, x = .ok a → y = .ok c → R a c → Agree Q (f a) (g c)) :
    Agree Q (x >>= f) (y >>= g) := by
  cases h with
  | error e => exact .error e
  | ok hR => exact hf _ _ rfl rfl hR

end Outcome

namespace Value

theorem requireWritable_eq_ok_iff (v : Value) (u : Unit) :
    v.requireWritable = .ok u ↔ v.isWritable = true := by
  rw [requireWritable]
  split
  · next h => simp [h]
  · next h => simp [h]

theorem plain?_eq_ok_iff (v : Value) (s : String) :
    v.plain? = .ok s ↔ v.isWritable = true ∧ v.plain = s := by
  rw [plain?]
  split
  · next h => simp [h]
  · next h => simp [h]

end Value

end Typeahead
