import Typeahead.Proofs.Index.Document
import Typeahead.Proofs.Session.Exec
import Typeahead.Proofs.Session.Sound
import Typeahead.Session.Queue

/-!
# Reading objects inside a transaction

Two relations between sessions.  `Session.Stays` says that the open transactions and the
calls to the backend are as before, except that a root transaction may have been opened.
`Session.Reads` says besides that rows and marks are as before, and that objects have at
most been read again from their rows.  The queue is left open in both.
-/

namespace Typeahead

/-- Two rows of related items make one. -/
theorem forall₂_trans {α β γ : Type} {R : α → β → Prop} {S : β → γ → Prop} {T : α → γ → Prop}
    (h : ∀ a b c, R a b → S b c → T a c) {xs : List α} {ys : List β} {zs : List γ}
    (hxy : List.Forall₂ R xs ys) (hyz : List.Forall₂ S ys zs) : List.Forall₂ T xs zs := by
  induction hxy generalizing zs with
  | nil =>
      cases hyz
      exact .nil
  | @cons a b xs ys hab hxy ih =>
      obtain ⟨c, zs', hbc, hrest, rfl⟩ := List.forall₂_cons_left_iff.mp hyz
      exact .cons (h a b c hab hbc) (ih hrest)

/-- Related items that are chosen and read alike give the same list. -/
theorem map_filter_eq_of_forall₂ {α β γ : Type} {R : α → β → Prop} {p : α → Bool}
    {q : β → Bool} {f : α → γ} {g : β → γ} {xs : List α} {ys : List β}
    (h : List.Forall₂ R xs ys) (hpq : ∀ a ∈ xs, ∀ b, R a b → q b = p a)
    (hfg : ∀ a b, R a b → g b = f a) : (ys.filter q).map g = (xs.filter p).map f := by
  induction h with
  | nil => rfl
  | @cons a b xs ys hab h ih =>
      have htail := ih fun a' ha' => hpq a' (List.mem_cons_of_mem _ ha')
      rw [List.filter_cons, List.filter_cons, hpq a List.mem_cons_self b hab]
      cases p a with
      | false => exact htail
      | true => simp [hfg a b hab, htail]

namespace Session

/-- The open transactions with their states, the innermost first. -/
def outline (s : Session) : List (Nat × TransactionState) := s.stack.map fun t => (t.id, t.state)

theorem length_outline (s : Session) : s.outline.length = s.stack.length := by
  rw [outline, List.length_map]

theorem inSavepoint_of_length {s : Session} (h : s.stack.length ≤ 1) : s.inSavepoint = false := by
  unfold inSavepoint
  rcases hstack : s.stack with _ | ⟨t, _ | ⟨u, rest⟩⟩
  · rfl
  · rfl
  · rw [hstack, List.length_cons, List.length_cons] at h
    omega

theorem path_eq (s : Session) : s.path = s.outline.map (·.1) := by
  rw [path, outline, List.map_map]
  rfl

theorem outline_eq_nil (s : Session) : s.outline = [] ↔ s.stack = [] := List.map_eq_nil_iff

/-- The transactions are as before, or a root transaction was opened. -/
structure Opens (s t : Session) : Prop where
  savepoints : t.savepoints = s.savepoints
  cases : t.outline = s.outline ∧ t.created = s.created ∨
    s.outline = [] ∧ t.outline = [(s.created, .active)] ∧ t.created = s.created + 1

namespace Opens

variable {s t u : Session}

theorem of_eq (houtline : t.outline = s.outline) (hcreated : t.created = s.created)
    (hsavepoints : t.savepoints = s.savepoints) : Opens s t :=
  ⟨hsavepoints, Or.inl ⟨houtline, hcreated⟩⟩

theorem refl (s : Session) : Opens s s := of_eq rfl rfl rfl

theorem trans (h : Opens s t) (k : Opens t u) : Opens s u := by
  refine ⟨k.savepoints.trans h.savepoints, ?_⟩
  rcases h.cases with ⟨ho, hc⟩ | ⟨hnil, ho, hc⟩
  · rw [← ho, ← hc]
    exact k.cases
  · rcases k.cases with ⟨ko, kc⟩ | ⟨knil, _⟩
    · exact Or.inr ⟨hnil, ko.trans ho, kc.trans hc⟩
    · rw [ho] at knil
      cases knil

/-- Inside a transaction no other one is opened. -/
theorem outline_eq (h : Opens s t) (hs : s.stack ≠ []) : t.outline = s.outline := by
  rcases h.cases with ⟨ho, _⟩ | ⟨hnil, _⟩
  · exact ho
  · exact absurd ((outline_eq_nil s).mp hnil) hs

theorem created_eq (h : Opens s t) (hs : s.stack ≠ []) : t.created = s.created := by
  rcases h.cases with ⟨_, hc⟩ | ⟨hnil, _⟩
  · exact hc
  · exact absurd ((outline_eq_nil s).mp hnil) hs

theorem stack_ne_nil (h : Opens s t) (hs : s.stack ≠ []) : t.stack ≠ [] := by
  intro ht
  rw [← outline_eq_nil, h.outline_eq hs, outline_eq_nil] at ht
  exact hs ht

end Opens

theorem opens_begin (s : Session) : Opens s s.begin := by
  unfold begin inTransaction
  cases hstack : s.stack with
  | nil =>
      refine ⟨rfl, Or.inr ⟨?_, ?_, rfl⟩⟩
      · rw [outline_eq_nil, hstack]
      · simp [outline, push, hstack]
  | cons t rest => exact Opens.of_eq rfl rfl rfl

theorem begin_stack_ne_nil (s : Session) : s.begin.stack ≠ [] := by
  unfold begin inTransaction
  cases hstack : s.stack with
  | nil => simp [push]
  | cons t rest => simp [hstack]

theorem begin_objects (s : Session) : s.begin.objects = s.objects := by
  unfold begin
  cases s.inTransaction with
  | true => rfl
  | false => rfl

theorem begin_fresh (s : Session) : s.begin.fresh = s.fresh := by
  unfold begin
  cases s.inTransaction with
  | true => rfl
  | false => rfl

theorem begin_marked (s : Session) : s.begin.marked = s.marked := by
  unfold begin
  cases s.inTransaction with
  | true => rfl
  | false => rfl

theorem begin_rows (s : Session) : s.begin.rows = s.rows := by
  unfold begin
  cases s.inTransaction with
  | true => rfl
  | false => rfl

theorem begin_queue (s : Session) : s.begin.queue = s.queue := by
  unfold begin
  cases s.inTransaction with
  | true => rfl
  | false => rfl

theorem begin_sent (s : Session) : s.begin.sent = s.sent := by
  unfold begin
  cases s.inTransaction with
  | true => rfl
  | false => rfl

/-- Nothing was sent and no transaction ended. -/
structure Stays (s t : Session) : Prop where
  sent : t.sent = s.sent
  opens : Opens s t
  sound : s.Sound → t.Sound

namespace Stays

variable {s t u : Session}

theorem refl (s : Session) : Stays s s := ⟨rfl, Opens.refl s, id⟩

theorem trans (h : Stays s t) (k : Stays t u) : Stays s u :=
  ⟨k.sent.trans h.sent, h.opens.trans k.opens, k.sound ∘ h.sound⟩

end Stays

theorem stays_begin (s : Session) : Stays s s.begin := by
  refine ⟨s.begin_sent, opens_begin s, fun h => ?_⟩
  rw [Sound, begin_fresh]
  exact h.of_objects_eq s.begin_objects

/-- Objects were at most read again. -/
structure Reads (c : Surroundings) (s t : Session) : Prop where
  stays : Stays s t
  fresh : t.fresh = s.fresh
  marked : t.marked = s.marked
  rows : t.rows = s.rows
  objects : s.Sound →
    List.Forall₂ (fun o p => Obj.Loads (c.attrs o.entity) o p) s.objects t.objects

namespace Reads

variable {c : Surroundings} {s t u : Session}

theorem refl (c : Surroundings) (s : Session) : Reads c s s where
  stays := Stays.refl s
  fresh := rfl
  marked := rfl
  rows := rfl
  objects _ := List.forall₂_same.mpr fun o _ => Obj.Loads.refl (c.attrs o.entity) o

theorem trans (h : Reads c s t) (k : Reads c t u) : Reads c s u where
  stays := h.stays.trans k.stays
  fresh := k.fresh.trans h.fresh
  marked := k.marked.trans h.marked
  rows := k.rows.trans h.rows
  objects hs := by
    refine forall₂_trans (fun o p q hop hpq => ?_) (h.objects hs) (k.objects (h.stays.sound hs))
    rw [(hop.carries []).entity] at hpq
    exact hop.trans hpq

end Reads

theorem reads_begin (c : Surroundings) (s : Session) : Reads c s s.begin where
  stays := stays_begin s
  fresh := s.begin_fresh
  marked := s.begin_marked
  rows := s.begin_rows
  objects _ := by
    rw [s.begin_objects]
    exact List.forall₂_same.mpr fun o _ => Obj.Loads.refl (c.attrs o.entity) o

/-- Objects that are related in their order are found by the same numbers. -/
theorem object?_of_forall₂ {s t : Session} {R : Obj → Obj → Prop}
    (h : List.Forall₂ R s.objects t.objects) (hid : ∀ o p, R o p → p.id = o.id) (id : Nat) :
    Option.Rel R (s.object? id) (t.object? id) := by
  unfold object?
  generalize s.objects = xs, t.objects = ys at h
  induction h with
  | nil => exact .none
  | @cons o p xs ys hop h ih =>
      rw [List.find?_cons, List.find?_cons, hid o p hop]
      cases o.id == id with
      | true => exact .some hop
      | false => exact ih

/-- A number stands for no object in either session, or for two related ones. -/
theorem object?_cases {s t : Session} {R : Obj → Obj → Prop}
    (h : List.Forall₂ R s.objects t.objects) (hid : ∀ o p, R o p → p.id = o.id) (id : Nat) :
    s.object? id = none ∧ t.object? id = none ∨
      ∃ o p, s.object? id = some o ∧ t.object? id = some p ∧ R o p := by
  have hrel := object?_of_forall₂ h hid id
  revert hrel
  cases s.object? id with
  | none =>
      cases t.object? id with
      | none => exact fun _ => Or.inl ⟨rfl, rfl⟩
      | some p => exact fun hrel => nomatch hrel
  | some o =>
      cases t.object? id with
      | none => exact fun hrel => nomatch hrel
      | some p =>
          intro hrel
          cases hrel with
          | some hop => exact Or.inr ⟨o, p, rfl, rfl, hop⟩

theorem object?_put (s : Session) (p : Obj) (k : Nat) :
    (s.modifyObject p.id fun _ => p).object? k =
      if p.id = k then (s.object? k).map fun _ => p else s.object? k := by
  have hid : ((fun o : Obj => o.id == k) ∘ fun o => if o.id == p.id then p else o) =
      fun o => o.id == k := by
    funext o
    by_cases ho : o.id = p.id
    · simp [ho]
    · simp [ho]
  rw [object?, modifyObject, List.find?_map, hid, ← object?]
  by_cases hk : p.id = k
  · rw [if_pos hk]
    refine Option.map_congr fun o ho => ?_
    have hok : o.id = p.id := ((mem_of_object?_eq_some ho).2).trans hk.symm
    simp [hok]
  · rw [if_neg hk]
    cases hs : s.object? k with
    | none => rfl
    | some o =>
        have hok : o.id ≠ p.id := by
          rw [(mem_of_object?_eq_some hs).2]
          exact fun h => hk h.symm
        simp [hok]

theorem object?_put_self {s : Session} {o p : Obj} (h : s.object? p.id = some o) :
    (s.modifyObject p.id fun _ => p).object? p.id = some p := by
  rw [object?_put, if_pos rfl, h]
  rfl

theorem object?_begin (s : Session) (k : Nat) : s.begin.object? k = s.object? k := by
  rw [object?, object?, begin_objects]

/-- Replacing an object of a sound session leaves the others. -/
theorem forall₂_put {s : Session} (h : s.Sound) {o p : Obj} {R : Obj → Obj → Prop}
    (hR : ∀ q, R q q) (ho : s.object? p.id = some o) (hop : R o p) :
    List.Forall₂ R s.objects (s.modifyObject p.id fun _ => p).objects := by
  refine List.forall₂_map_right_iff.mpr (List.forall₂_same.mpr fun q hq => ?_)
  by_cases hid : q.id = p.id
  · have hqo : q = o := by
      rw [← hid, h.object?_eq hq] at ho
      exact Option.some.inj ho
    have hput : (if q.id == p.id then p else q) = p := by simp [hid]
    rw [hput, hqo]
    exact hop
  · simp [hid, hR]

theorem reads_put {c : Surroundings} {s : Session} {o p : Obj} (ho : s.object? p.id = some o)
    (hop : Obj.Loads (c.attrs o.entity) o p) : Reads c s (s.modifyObject p.id fun _ => p) where
  stays := by
    refine ⟨rfl, Opens.of_eq rfl rfl rfl, fun h => h.put ?_⟩
    exact (hop.carries []).sound (h.objects o (mem_of_object?_eq_some ho).1)
  fresh := rfl
  marked := rfl
  rows := rfl
  objects h :=
    forall₂_put h (fun q => Obj.Loads.refl (c.attrs q.entity) q) ho hop

end Session

namespace Surroundings

open Session

/-- Once an object was read again, it is not expired, unless it has no key to be found
by. -/
theorem refresh_reads (c : Surroundings) {s t : Session} {o : Obj} {r : Except Failure Unit}
    (ho : s.object? o.id = some o) (hexpired : o.expired = true)
    (h : c.refresh o s = (r, t)) :
    Reads c s t ∧ t.queue = s.queue ∧
      (r = .ok () → ∃ p, t.object? o.id = some p ∧ (p.expired = true → p.key = none)) := by
  have hbegin := reads_begin c s
  have hrefused : ∀ e : Failure, (Except.error e : Except Failure Unit) = .ok () →
      ∃ p, s.begin.object? o.id = some p ∧ (p.expired = true → p.key = none) :=
    fun e he => absurd he (by simp)
  rw [← object?_begin] at ho
  unfold refresh at h
  cases hattached : o.isAttached with
  | false =>
      rw [hattached] at h
      obtain ⟨rfl, rfl⟩ := Prod.mk.inj h
      exact ⟨Reads.refl c s, rfl, fun he => absurd he (by simp)⟩
  | true =>
      obtain ⟨active, hactive, _⟩ := Exec.requireActive_apply s.begin
      simp only [hattached, Bool.not_true, Bool.false_eq_true, if_false, Exec.bind_apply,
        Exec.modify_apply, hactive] at h
      cases active with
      | error e =>
          obtain ⟨rfl, rfl⟩ := Prod.mk.inj h
          exact ⟨hbegin, s.begin_queue, hrefused e⟩
      | ok u =>
          cases hkey : o.key with
          | none =>
              rw [hkey] at h
              obtain ⟨rfl, rfl⟩ := Prod.mk.inj h
              exact ⟨hbegin, s.begin_queue, fun _ => ⟨o, ho, fun _ => hkey⟩⟩
          | some key =>
              rw [hkey] at h
              dsimp only at h
              rw [Exec.bind_apply, Exec.get_apply] at h
              dsimp only at h
              cases hrow : Row.find? s.begin.rows (c.tableName o.entity) key with
              | none =>
                  rw [hrow] at h
                  obtain ⟨rfl, rfl⟩ := Prod.mk.inj h
                  exact ⟨hbegin, s.begin_queue, hrefused _⟩
              | some row =>
                  rw [hrow] at h
                  obtain ⟨rfl, rfl⟩ := Prod.mk.inj h
                  have hsome : o.key.isSome = true := by rw [hkey]; rfl
                  have hfill : Obj.Loads (c.attrs o.entity) o (o.fill (c.attrs o.entity) row) :=
                    Or.inr ⟨hexpired, hsome, row, rfl⟩
                  refine ⟨hbegin.trans (reads_put ho hfill), s.begin_queue, fun _ => ?_⟩
                  refine ⟨o.fill (c.attrs o.entity) row, object?_put_self ho, fun hstill => ?_⟩
                  simp [Obj.fill] at hstill

/-- An object has several attributes at hand: they need not be read again. -/
def AtHand (c : Surroundings) (needed : List String) (o : Obj) : Prop :=
  o.expired = true → o.key.isSome = true →
    ∀ a ∈ needed, a ∈ c.attrs o.entity → o.values.has a = true

theorem load_reads (c : Surroundings) {s t : Session} {id : Nat} {needed : List String}
    {r : Except Failure Obj} (h : c.load id needed s = (r, t)) :
    Reads c s t ∧ t.queue = s.queue ∧
      ∀ p, r = .ok p → t.object? id = some p ∧ c.AtHand needed p := by
  unfold load at h
  rw [Exec.bind_apply, Exec.object_apply] at h
  cases ho : s.object? id with
  | none =>
      rw [ho] at h
      obtain ⟨rfl, rfl⟩ := Prod.mk.inj h
      exact ⟨Reads.refl c s, rfl, fun p hp => absurd hp (by simp)⟩
  | some o =>
      rw [ho] at h
      dsimp only at h
      obtain rfl : o.id = id := (mem_of_object?_eq_some ho).2
      cases hstale : c.isStale o needed with
      | false =>
          rw [hstale] at h
          obtain ⟨rfl, rfl⟩ := Prod.mk.inj h
          refine ⟨Reads.refl c s, rfl, fun p hp => ?_⟩
          obtain rfl : o = p := Except.ok.inj hp
          refine ⟨ho, fun hexpired _ a ha hattr => ?_⟩
          simp only [isStale, hexpired, Bool.true_and, List.any_eq_false] at hstale
          simpa [hattr] using hstale a ha
      | true =>
          have hexpired : o.expired = true := by
            simp only [isStale, Bool.and_eq_true] at hstale
            exact hstale.1
          rw [hstale, if_pos rfl, Exec.bind_apply] at h
          rcases hrefresh : c.refresh o s with ⟨q, u⟩
          obtain ⟨hreads, hqueue, hdone⟩ := c.refresh_reads ho hexpired hrefresh
          rw [hrefresh] at h
          cases q with
          | error e =>
              obtain ⟨rfl, rfl⟩ := Prod.mk.inj h
              exact ⟨hreads, hqueue, fun p hp => absurd hp (by simp)⟩
          | ok q =>
              obtain ⟨p, hp, hkeyless⟩ := hdone rfl
              dsimp only at h
              rw [Exec.object_apply, hp] at h
              obtain ⟨rfl, rfl⟩ := Prod.mk.inj h
              refine ⟨hreads, hqueue, fun p' hp' => ?_⟩
              obtain rfl : p = p' := Except.ok.inj hp'
              refine ⟨hp, fun hstill hkey => ?_⟩
              rw [hkeyless hstill] at hkey
              cases hkey

end Surroundings

end Typeahead
