import Typeahead.Proofs.Session.Clean

/-!
# Ends of transactions

Releasing, undoing, leaving and closing end the innermost transactions, `Session.Closes`.  They
differ in what becomes of the queue: a release keeps it, undoing drops the writes that wait for
the undone transaction, and with the root transaction all of it goes.
-/

namespace Typeahead

namespace Session

/-- The innermost transactions end, as many as given, and nothing is sent. -/
structure Closes (n : Nat) (s t : Session) : Prop where
  outline : t.outline = s.outline.drop n
  created : t.created = s.created
  savepoints : t.savepoints = s.savepoints
  sent : t.sent = s.sent
  sound : s.Sound → t.Sound

namespace Closes

variable {m n : Nat} {s t u : Session}

theorem refl (s : Session) : Closes 0 s s := ⟨rfl, rfl, rfl, rfl, id⟩

theorem trans (h : Closes m s t) (k : Closes n t u) : Closes (m + n) s u where
  outline := by rw [k.outline, h.outline, List.drop_drop]
  created := k.created.trans h.created
  savepoints := k.savepoints.trans h.savepoints
  sent := k.sent.trans h.sent
  sound := k.sound ∘ h.sound

theorem path (h : Closes n s t) : t.path = s.path.drop n := by
  rw [path_eq, path_eq, h.outline, List.map_drop]

theorem writes (h : Closes n s t) : t.writes = s.writes := by
  rw [Session.writes, Session.writes, h.sent]

end Closes

/-- The first place of a transaction among the open ones. -/
theorem exists_outline_eq {s : Session} {id : Nat} (h : id ∈ s.path) :
    ∃ inside state rest, s.outline = inside ++ (id, state) :: rest ∧ id ∉ inside.map Prod.fst := by
  obtain ⟨before, after, hpath, hfirst⟩ := List.eq_append_cons_of_mem h
  rw [path_eq] at hpath
  obtain ⟨inside, outer, houtline, rfl, houter⟩ := List.map_eq_append_iff.mp hpath
  obtain ⟨e, rest, rfl, rfl, _⟩ := List.map_eq_cons_iff.mp houter
  exact ⟨inside, e.2, rest, houtline, hfirst⟩

variable {s : Session}

theorem mergeInnermost_eq_self (hs : s.outline.tail = []) : s.mergeInnermost = s := by
  unfold mergeInnermost
  rcases hstack : s.stack with _ | ⟨t, _ | ⟨outer, rest⟩⟩
  · rfl
  · rfl
  · simp [outline, hstack] at hs

theorem closes_mergeInnermost (hs : s.outline.tail ≠ []) : Closes 1 s s.mergeInnermost := by
  unfold mergeInnermost
  rcases hstack : s.stack with _ | ⟨t, _ | ⟨outer, rest⟩⟩
  · simp [outline, hstack] at hs
  · simp [outline, hstack] at hs
  · refine ⟨?_, rfl, rfl, rfl, fun h => h.of_objects_eq rfl⟩
    simp [outline, hstack]

theorem mergeInnermost_keeps (s : Session) :
    s.mergeInnermost.queue = s.queue ∧ s.mergeInnermost.sent = s.sent ∧
      s.mergeInnermost.isClean = s.isClean ∧ s.mergeInnermost.objects = s.objects ∧
      s.mergeInnermost.fresh = s.fresh ∧ s.mergeInnermost.marked = s.marked := by
  unfold mergeInnermost
  rcases s.stack with _ | ⟨t, _ | ⟨u, rest⟩⟩
  · exact ⟨rfl, rfl, rfl, rfl, rfl, rfl⟩
  · exact ⟨rfl, rfl, rfl, rfl, rfl, rfl⟩
  · exact ⟨rfl, rfl, rfl, rfl, rfl, rfl⟩

/-- Several transactions are released one after the other, and the root transaction stays. -/
theorem closes_merges {n : Nat} (hn : n < s.outline.length) :
    Closes n s (mergeInnermost^[n] s) ∧ (mergeInnermost^[n] s).queue = s.queue := by
  induction n with
  | zero => exact ⟨Closes.refl s, rfl⟩
  | succ n ih =>
      obtain ⟨hcloses, hqueue⟩ := ih (Nat.lt_of_succ_lt hn)
      have htail : (mergeInnermost^[n] s).outline.tail ≠ [] := by
        rw [hcloses.outline, List.tail_drop, ← List.length_pos_iff, List.length_drop]
        omega
      rw [Function.iterate_succ_apply']
      refine ⟨hcloses.trans (closes_mergeInnermost htail), ?_⟩
      rw [(mergeInnermost_keeps _).1, hqueue]

/-- With the root transaction all waiting writes go. -/
theorem closes_pop (s : Session) : Closes 1 s s.pop ∧
    s.pop.queue = if s.outline.tail = [] then (if s.outline = [] then s.queue else [])
      else s.queue := by
  suffices h : s.pop.outline = s.outline.drop 1 ∧ s.pop.created = s.created ∧
      s.pop.savepoints = s.savepoints ∧ s.pop.sent = s.sent ∧
      s.pop.queue = if s.outline.tail = [] then (if s.outline = [] then s.queue else [])
        else s.queue by
    obtain ⟨houtline, hcreated, hsavepoints, hsent, hqueue⟩ := h
    exact ⟨⟨houtline, hcreated, hsavepoints, hsent, sound_pop⟩, hqueue⟩
  unfold pop
  rcases hstack : s.stack with _ | ⟨t, _ | ⟨outer, rest⟩⟩
  · simp [outline, hstack]
  · simp [outline, hstack]
  · simp [outline, hstack]

theorem closes_undoInnermost (c : Surroundings) (s : Session) :
    Closes 1 s (s.undoInnermost c) ∧ ∀ e ∈ s.outline.head?, (s.undoInnermost c).queue =
      if s.outline.tail = [] then [] else s.queue.filter fun w => !waitsFor e.1 w := by
  suffices h : (s.undoInnermost c).outline = s.outline.drop 1 ∧
      (s.undoInnermost c).created = s.created ∧
      (s.undoInnermost c).savepoints = s.savepoints ∧ (s.undoInnermost c).sent = s.sent ∧
      ∀ e ∈ s.outline.head?, (s.undoInnermost c).queue =
        if s.outline.tail = [] then [] else s.queue.filter fun w => !waitsFor e.1 w by
    obtain ⟨houtline, hcreated, hsavepoints, hsent, hqueue⟩ := h
    exact ⟨⟨houtline, hcreated, hsavepoints, hsent, fun hs => sound_undoInnermost hs c⟩, hqueue⟩
  have hpop (u : Session) (t : Transaction) (outer : List Transaction)
      (hs : s.stack = t :: outer) (hstack : u.stack = t :: outer) (hqueue : u.queue = s.queue)
      (hcreated : u.created = s.created) (hsavepoints : u.savepoints = s.savepoints)
      (hsent : u.sent = s.sent) :
      (dropWrites t.id u).pop.outline = s.outline.drop 1 ∧
        (dropWrites t.id u).pop.created = s.created ∧
        (dropWrites t.id u).pop.savepoints = s.savepoints ∧
        (dropWrites t.id u).pop.sent = s.sent ∧
        ∀ e ∈ s.outline.head?, (dropWrites t.id u).pop.queue =
          if s.outline.tail = [] then [] else s.queue.filter fun w => !waitsFor e.1 w := by
    obtain ⟨hcloses, hpopped⟩ := closes_pop (dropWrites t.id u)
    have houtline : (dropWrites t.id u).outline = s.outline := by
      rw [outline, outline, hs, ← hstack]
      rfl
    refine ⟨by rw [hcloses.outline, houtline], hcloses.created.trans hcreated,
      hcloses.savepoints.trans hsavepoints, hcloses.sent.trans hsent, fun e he => ?_⟩
    have hne : s.outline ≠ [] := by simp [outline, hs]
    have hid : t.id = e.1 := by
      rw [outline, hs] at he
      simp at he
      rw [← he]
    rw [hpopped, houtline, if_neg hne, hid, dropWrites, hqueue]
  unfold undoInnermost
  cases hs : s.stack with
  | nil => simp [outline, hs]
  | cons t outer =>
      dsimp only
      cases t.state with
      | active => exact hpop _ t outer hs rfl rfl rfl rfl rfl
      | broken =>
          dsimp only
          split
          · exact hpop s t outer hs hs rfl rfl rfl rfl
          · exact hpop _ t outer hs hs rfl rfl rfl rfl
      | committed =>
          dsimp only
          split
          · exact hpop s t outer hs hs rfl rfl rfl rfl
          · exact hpop _ t outer hs hs rfl rfl rfl rfl

/-- Undoing everything leaves no transaction and no write. -/
theorem closes_undoAll (c : Surroundings) (hs : s.stack ≠ []) :
    Closes s.outline.length s (s.undoAll c) ∧ (s.undoAll c).queue = [] := by
  have hfold (ts : List Transaction) : ∀ u : Session, u.outline.length = ts.length → ts ≠ [] →
      Closes ts.length u (ts.foldl (fun u _ => u.undoInnermost c) u) ∧
        (ts.foldl (fun u _ => u.undoInnermost c) u).queue = [] := by
    induction ts with
    | nil => exact fun _ _ hne => absurd rfl hne
    | cons t ts ih =>
        intro u hlength _
        obtain ⟨hcloses, hqueue⟩ := closes_undoInnermost c u
        obtain ⟨e, rest, hu⟩ := List.exists_cons_of_length_pos (l := u.outline) (by
          rw [hlength]
          exact Nat.succ_pos _)
        have hrest : rest.length = ts.length := by
          rw [hu] at hlength
          exact Nat.succ.inj hlength
        rw [hu] at hqueue
        cases ts with
        | nil =>
            obtain rfl := List.length_eq_zero_iff.mp hrest
            exact ⟨hcloses, hqueue e rfl⟩
        | cons t' ts =>
            have hleft : (u.undoInnermost c).outline.length = (t' :: ts).length := by
              rw [hcloses.outline, hu]
              exact hrest
            obtain ⟨hmore, hdone⟩ := ih _ hleft (List.cons_ne_nil t' ts)
            rw [List.length_cons, Nat.add_comm]
            exact ⟨hcloses.trans hmore, hdone⟩
  rw [length_outline]
  exact hfold s.stack s s.length_outline hs

section Savepoint

variable {id : Nat} {state : TransactionState} {inside rest : List (Nat × TransactionState)}

theorem closes_dropInside (hs : s.outline = inside ++ (id, state) :: rest)
    (hid : id ∉ inside.map Prod.fst) :
    Closes inside.length s (s.dropInside id) ∧ (s.dropInside id).outline = (id, state) :: rest := by
  have houtline : (s.dropInside id).outline = s.outline.dropWhile fun e => e.1 != id := by
    rw [outline, outline, List.dropWhile_map]
    rfl
  have hinside (e : Nat × TransactionState) (he : e ∈ inside) : (e.1 != id) = true := by
    rw [bne_iff_ne]
    rintro rfl
    exact hid (List.mem_map_of_mem he)
  have hdrop : (s.dropInside id).outline = (id, state) :: rest := by
    rw [houtline, hs, List.dropWhile_append_of_pos hinside, List.dropWhile_cons_of_neg (by simp)]
  refine ⟨⟨?_, rfl, rfl, rfl, fun h => h.of_objects_eq rfl⟩, hdrop⟩
  rw [hdrop, hs, List.drop_left]

/-- Rolling back to a savepoint ends it with those inside it, and the writes that wait for it
go. -/
theorem closes_undoTo (c : Surroundings) (hs : s.outline = inside ++ (id, state) :: rest)
    (hid : id ∉ inside.map Prod.fst) :
    Closes (inside.length + 1) s ((s.dropInside id).undoInnermost c) ∧
      ((s.dropInside id).undoInnermost c).queue =
        if rest = [] then [] else s.queue.filter fun w => !waitsFor id w := by
  obtain ⟨hcloses, houtline⟩ := closes_dropInside hs hid
  obtain ⟨hundone, hqueue⟩ := closes_undoInnermost c (s.dropInside id)
  rw [houtline] at hqueue
  exact ⟨hcloses.trans hundone, hqueue (id, state) rfl⟩

/-- Leaving a savepoint ends it with those inside it, and its writes stay. -/
theorem closes_leave (hs : s.outline = inside ++ (id, state) :: rest)
    (hid : id ∉ inside.map Prod.fst) :
    Closes (inside.length + 1) s (s.dropInside id).pop ∧
      (s.dropInside id).pop.queue = if rest = [] then [] else s.queue := by
  obtain ⟨hcloses, houtline⟩ := closes_dropInside hs hid
  obtain ⟨hpopped, hqueue⟩ := closes_pop (s.dropInside id)
  rw [houtline, if_neg (List.cons_ne_nil _ _)] at hqueue
  exact ⟨hcloses.trans hpopped, hqueue⟩

end Savepoint

theorem closes_close (s : Session) : Closes s.outline.length s s.close ∧ s.close.queue = [] := by
  refine ⟨⟨?_, rfl, rfl, rfl, sound_close⟩, rfl⟩
  rw [List.drop_length]
  rfl

end Session

end Typeahead
