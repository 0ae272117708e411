import Typeahead.Proofs.Session.Flushing

/-!
# Sessions with nothing to flush

A flush that succeeds leaves nothing to flush, and flushing such a session again does nothing
at all.  So a series of boundaries that all flush, as they come with a commit, does no more than
its first flush.
-/

namespace Typeahead

namespace Session

/-- The stored objects with changes are among those of `ids`. -/
def LeftTo (ids : List Nat) (s : Session) : Prop :=
  ∀ o ∈ s.objects, o.standing = .stored → o.modified = true → o.id ∈ ids

section LeftTo

variable {s : Session} {id : Nat} {ids : List Nat}

/-- An object that is settled or not stored any more is left out. -/
theorem LeftTo.modifyObject (h : LeftTo (id :: ids) s) {f : Obj → Obj}
    (hf : ∀ o, (f o).standing = .stored → (f o).modified = true → False) :
    LeftTo ids (s.modifyObject id f) := by
  intro p hp hstored hmodified
  obtain ⟨o, ho, rfl⟩ := List.mem_map.mp hp
  by_cases hid : o.id == id
  · rw [if_pos hid] at hstored hmodified
    exact (hf o hstored hmodified).elim
  · rw [if_neg hid] at hstored hmodified ⊢
    rcases List.mem_cons.mp (h o ho hstored hmodified) with heq | hmem
    · exact absurd (beq_iff_eq.mpr heq) hid
    · exact hmem

theorem LeftTo.foldl {f : Session → Nat → Session}
    (hf : ∀ s id ids, LeftTo (id :: ids) s → LeftTo ids (f s id)) (xs : List Nat)
    (h : LeftTo (xs ++ ids) s) : LeftTo ids (xs.foldl f s) := by
  induction xs generalizing s with
  | nil => exact h
  | cons x xs ih => exact ih (hf s x (xs ++ ids) h)

theorem modifyInnermost_objects (s : Session) (f : Transaction → Transaction) :
    (s.modifyInnermost f).objects = s.objects := by
  unfold modifyInnermost
  cases s.stack with
  | nil => rfl
  | cons t rest => rfl

theorem leftTo_keep (c : Surroundings) (s : Session) (id : Nat) (ids : List Nat)
    (h : LeftTo (id :: ids) s) : LeftTo ids (c.keep s id) := by
  unfold Surroundings.keep
  cases ho : s.object? id with
  | none =>
      intro o homem hstored hmodified
      rcases List.mem_cons.mp (h o homem hstored hmodified) with heq | hmem
      · have hnone := List.find?_eq_none.mp ho o homem
        simp [heq] at hnone
      · exact hmem
  | some o =>
      have hpushed (d : Obj) : LeftTo (id :: ids) (if d.id == id then s
          else s.modifyObject d.id fun d => { d with standing := .displaced }) := by
        split
        · exact h
        · have hmore : LeftTo (d.id :: id :: ids) s :=
            fun p hp hstored hmodified => List.mem_cons_of_mem d.id (h p hp hstored hmodified)
          exact hmore.modifyObject fun _ hstored _ => by cases hstored
      have hnoted (u : Session) (f : Transaction → Transaction) (hu : LeftTo (id :: ids) u) :
          LeftTo (id :: ids) (u.modifyInnermost f) := by
        intro p hp
        rw [modifyInnermost_objects] at hp
        exact hu p hp
      dsimp only
      refine LeftTo.modifyObject ?_ fun _ _ hmodified => by cases hmodified
      cases o.key.filter fun k => !k.same (c.ownKey o) with
      | none =>
          cases s.storedAt? c (c.tableName o.entity) (c.ownKey o) with
          | none => exact h
          | some d => exact hpushed d
      | some k =>
          refine hnoted _ _ ?_
          cases s.storedAt? c (c.tableName o.entity) (c.ownKey o) with
          | none => exact h
          | some d => exact hpushed d

/-- After a flush there is nothing to flush. -/
theorem isClean_conclude (c : Surroundings) (s : Session) : (c.conclude s).isClean = true := by
  have hstart : LeftTo (s.marked ++ s.dirty.map (·.id)) s := by
    intro o ho hstored hmodified
    by_cases hmarked : o.id ∈ s.marked
    · exact List.mem_append_left _ hmarked
    · refine List.mem_append_right _ (List.mem_map.mpr ⟨o, List.mem_filter.mpr ⟨ho, ?_⟩, rfl⟩)
      simp [hstored, hmodified, hmarked]
  have hremoved := hstart.foldl (f := fun s id =>
    s.modifyObject id fun o => { o with standing := .removed })
      (fun _ _ _ h => h.modifyObject fun _ hstored _ => nomatch hstored)
  have hkept : LeftTo [] ((s.fresh ++ s.dirty.map (·.id)).foldl c.keep (s.marked.foldl
      (fun s id => s.modifyObject id fun o => { o with standing := .removed }) s)) := by
    refine LeftTo.foldl (leftTo_keep c) _ fun o ho hstored hmodified => ?_
    rw [List.append_nil]
    exact List.mem_append_right _ (hremoved o ho hstored hmodified)
  unfold Surroundings.conclude isClean
  simp only [List.isEmpty_nil, Bool.true_and, Bool.not_eq_true', List.any_eq_false,
    Bool.and_eq_true, beq_iff_eq, modifyInnermost_objects]
  exact fun o ho hboth => List.not_mem_nil (hkept o ho hboth.1 hboth.2)

end LeftTo

theorem lists_of_isClean {s : Session} (h : s.isClean = true) :
    s.fresh = [] ∧ s.marked = [] ∧ s.dirty = [] := by
  simp only [isClean, Bool.and_eq_true, List.isEmpty_iff, Bool.not_eq_true',
    List.any_eq_false] at h
  obtain ⟨⟨hfresh, hmarked⟩, hobjects⟩ := h
  refine ⟨hfresh, hmarked, List.filter_eq_nil_iff.mpr fun o ho hchanged => hobjects o ho ?_⟩
  simp only [Bool.and_eq_true] at hchanged ⊢
  exact hchanged.1

theorem isClean_begin (s : Session) : s.begin.isClean = s.isClean := by
  rw [isClean, isClean, begin_objects, begin_fresh, begin_marked]

end Session

namespace Surroundings

open Session

theorem flush_of_isClean (c : Surroundings) {s : Session} (h : s.isClean = true) :
    c.flush s = (.ok (), s) := by
  rw [flush_eq, Exec.bind_apply, Exec.get_apply]
  dsimp only
  rw [if_pos h]
  rfl

theorem written_of_isClean (c : Surroundings) {s : Session} (h : s.isClean = true)
    (t : Session) : c.written s t = [] := by
  obtain ⟨hfresh, hmarked, hdirty⟩ := lists_of_isClean h
  rw [written, hfresh, hmarked, hdirty]
  rfl

theorem begin_written (c : Surroundings) (s t : Session) :
    c.written s.begin t = c.written s t := by
  have hdirty : s.begin.dirty = s.dirty := by
    rw [dirty, dirty, begin_objects, begin_marked]
  rw [written, written, begin_fresh, begin_marked, hdirty]

/-- A flush that succeeds had nothing to do, or did its work. -/
theorem flush_cases {c : Surroundings} {s t : Session} (h : c.flush s = (.ok (), t)) :
    s.isClean = true ∧ t = s ∨ c.flushWork s.begin = (.ok (), t) := by
  cases hclean : s.isClean with
  | true =>
      rw [flush_of_isClean c hclean] at h
      exact Or.inl ⟨rfl, (congrArg Prod.snd h).symm⟩
  | false =>
      rw [flush_eq, Exec.bind_apply, Exec.get_apply] at h
      dsimp only at h
      rw [hclean, if_neg Bool.false_ne_true, Exec.bind_apply, Exec.modify_apply] at h
      dsimp only at h
      obtain ⟨_, u, hactive, hattempt⟩ := Exec.bind_eq_ok h
      obtain ⟨r, hrequire, _⟩ := Exec.requireActive_apply s.begin
      rw [hrequire] at hactive
      obtain rfl : s.begin = u := congrArg Prod.snd hactive
      unfold attempt at hattempt
      rw [Exec.tryCatch_apply] at hattempt
      rcases hwork : c.flushWork s.begin with ⟨q, v⟩
      rw [hwork] at hattempt
      cases q with
      | ok q => exact Or.inr hattempt
      | error e => cases congrArg Prod.fst hattempt

theorem flush_of_proceed {c : Surroundings} {s t : Session} (h : c.proceed s = (.ok (), t)) :
    c.flush s = (.ok (), t) := by
  obtain ⟨_, u, hrequire, hflush⟩ := Exec.bind_eq_ok h
  obtain ⟨r, hr, _⟩ := Exec.requireActive_apply s
  rw [hr] at hrequire
  obtain rfl : s = u := congrArg Prod.snd hrequire
  exact hflush

/-- A flush that succeeds leaves the open transactions as they are. -/
theorem outline_of_flush {c : Surroundings} {s t : Session} (h : c.flush s = (.ok (), t))
    (hs : s.Sound) (hstack : s.stack ≠ []) : t.outline = s.outline ∧ t.Sound := by
  rcases flush_cases h with ⟨_, rfl⟩ | hwork
  · exact ⟨rfl, hs⟩
  · have hbegin := stays_begin s
    have hflushed : Flushed c s.begin t :=
      c.flushWork_spec hwork (hbegin.sound hs) s.begin_stack_ne_nil
    exact ⟨hflushed.outline.trans (hbegin.opens.outline_eq hstack), hflushed.sound⟩

theorem isClean_of_flush {c : Surroundings} {s t : Session} (h : c.flush s = (.ok (), t)) :
    t.isClean = true := by
  rcases flush_cases h with ⟨hclean, rfl⟩ | hwork
  · exact hclean
  · unfold flushWork at hwork
    obtain ⟨_, _, _, hwork⟩ := Exec.bind_eq_ok hwork
    obtain ⟨_, _, _, hwork⟩ := Exec.bind_eq_ok hwork
    obtain ⟨_, _, _, hwork⟩ := Exec.bind_eq_ok hwork
    obtain ⟨_, v, _, hwork⟩ := Exec.bind_eq_ok hwork
    obtain rfl : c.conclude v = t := congrArg Prod.snd hwork
    exact isClean_conclude c v

end Surroundings

end Typeahead
