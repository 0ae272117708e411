import Typeahead.Proofs.Journal.Boundaries

/-!
# Ends of transactions in the ledger

Undoing, leaving and closing keep the ledger.  A savepoint that is undone takes the writes with it
that hang on it or on a savepoint inside it.  One that is just left takes none.
-/

namespace Typeahead

namespace History

/-- Undoing transactions takes the writes away that hang on them. -/
theorem waiting_fates_undone (h : History) (ids path : List Nat) :
    (h ++ fates .undone ids).waiting path =
      (h.waiting path).filter fun w => ∀ id ∈ w.path, id ∉ ids := by
  rw [waiting, waiting, captures_append, captures_fates, List.append_nil, List.filter_filter]
  refine List.filter_congr fun w _ => ?_
  rw [← Bool.decide_and]
  refine decide_eq_decide.mpr ?_
  simp only [Waits, met_append, met_fates, if_true, reduceCtorEq, if_false, List.append_nil,
    List.mem_append, not_or]
  constructor
  · rintro ⟨hpath, hlast, hids⟩
    exact ⟨fun id hid => (hids id hid).1.2, hpath, hlast,
      fun id hid => ⟨(hids id hid).1.1, (hids id hid).2⟩⟩
  · rintro ⟨hgone, hpath, hlast, hids⟩
    exact ⟨hpath, hlast, fun id hid => ⟨⟨(hids id hid).1, hgone id hid⟩, (hids id hid).2⟩⟩

end History

namespace Session

variable {s : Session} {id : Nat} {state : TransactionState}
  {inside rest : List (Nat × TransactionState)}

theorem openAs?_eq_some {name : String} :
    s.openAs? name = some id ↔ s.savepoint? name = some id ∧ id ∈ s.path := by
  simp [openAs?, Option.filter_eq_some_iff]

/-- The open transactions up to one of them. -/
theorem upTo_eq (hs : s.outline = inside ++ (id, state) :: rest) (hid : id ∉ inside.map Prod.fst) :
    s.upTo id = (inside ++ [(id, state)]).map Prod.fst := by
  have hinside (i : Nat) (hi : i ∈ inside.map Prod.fst) : (i != id) = true := by
    rw [bne_iff_ne]
    rintro rfl
    exact hid hi
  rw [upTo, path_eq, hs, List.map_append, List.map_cons, List.takeWhile_append_of_pos hinside,
    List.takeWhile_cons_of_neg (by simp), List.append_nil, List.map_append, List.map_singleton]

theorem upTo_eq_take (hs : s.outline = inside ++ (id, state) :: rest)
    (hid : id ∉ inside.map Prod.fst) : s.upTo id = s.path.take (inside.length + 1) := by
  have hs' : s.outline = (inside ++ [(id, state)]) ++ rest := by rw [hs, List.append_assoc]; rfl
  rw [upTo_eq hs hid, path_eq, hs', ← List.map_take,
    List.take_left' (by rw [List.length_append, List.length_singleton])]

end Session

namespace Ledger

variable {s t : Session} {h : History} {inside rest : List (Nat × TransactionState)}
  {e : Nat × TransactionState}

theorem getLast?_append_right {as bs : List Nat} (h : bs ≠ []) :
    (as ++ bs).getLast? = bs.getLast? := by
  rw [List.getLast?_append]
  cases hlast : bs.getLast? with
  | none => exact absurd (List.getLast?_eq_none_iff.mp hlast) h
  | some b => rfl

/-- The savepoints inside of one were opened after it. -/
theorem lt_of_inside (L : Ledger s h)
    (hs : s.outline = inside ++ e :: rest) : ∀ d ∈ inside, e.1 < d.1 := by
  have hdescending := L.descending
  rw [Session.path_eq, hs, List.map_append, List.map_cons] at hdescending
  obtain ⟨_, _, hcross⟩ := List.pairwise_append.mp hdescending
  exact fun d hd => hcross d.1 (List.mem_map_of_mem hd) e.1 List.mem_cons_self

/-- The writes that hang on a savepoint are those that hang on it or on one inside of it. -/
theorem filter_waitsFor (L : Ledger s h)
    (hs : s.outline = inside ++ e :: rest) :
    s.queue.filter (fun w => !Session.waitsFor e.1 w) =
      s.queue.filter fun w => ∀ id ∈ w.path, id ∉ (inside ++ [e]).map Prod.fst := by
  have hpath : s.path = inside.map Prod.fst ++ e.1 :: rest.map Prod.fst := by
    rw [Session.path_eq, hs, List.map_append, List.map_cons]
  have hid : e.1 ∈ s.path := by
    rw [hpath]
    exact List.mem_append_right _ List.mem_cons_self
  refine List.filter_congr fun w hw => ?_
  rw [Session.waitsFor, List.map_append, List.map_cons, List.map_nil]
  cases hcontains : w.path.contains e.1 with
  | true =>
      have hmem : e.1 ∈ w.path := by simpa using hcontains
      refine (decide_eq_false_iff_not.mpr ?_).symm
      intro hall
      exact hall e.1 hmem (List.mem_append_right _ (List.mem_singleton_self _))
  | false =>
      have hnot : e.1 ∉ w.path := by simpa using hcontains
      refine (decide_eq_true_iff.mpr ?_).symm
      intro i hi hmem
      rcases List.mem_append.mp hmem with hmem | hmem
      · -- a write of a savepoint inside hangs on the one that is rolled back to
        obtain ⟨d, hd, rfl⟩ := List.mem_map.mp hmem
        have hopen : d.1 ∈ s.path := by
          rw [hpath]
          exact List.mem_append_left _ hmem
        exact hnot (L.nested w hw d.1 hi hopen e.1 hid (lt_of_inside L hs d hd))
      · rw [List.mem_singleton.mp hmem] at hi
        exact hnot hi

/-- What is left in the queue when a savepoint is rolled back to still waits. -/
theorem queue_undone (L : Ledger s h)
    (hs : s.outline = inside ++ e :: rest) :
    (if rest = [] then [] else s.queue.filter fun w => !Session.waitsFor e.1 w) =
      (h ++ History.fates .undone ((inside ++ [e]).map Prod.fst)).waiting
        (rest.map Prod.fst) := by
  cases hrest : rest with
  | nil => rw [if_pos rfl, List.map_nil, History.waiting_nil]
  | cons d ds =>
      have hpath : s.path = inside.map Prod.fst ++ e.1 :: rest.map Prod.fst := by
        rw [Session.path_eq, hs, List.map_append, List.map_cons]
      have hne : rest.map Prod.fst ≠ [] := by rw [hrest]; simp
      have hlast : (rest.map Prod.fst).getLast? = s.path.getLast? := by
        rw [hpath, List.append_cons, getLast?_append_right hne]
      have hwaiting : h.waiting (rest.map Prod.fst) = s.queue := by
        rw [L.queue]
        exact History.waiting_congr rfl rfl rfl hne (by rw [hpath]; simp) hlast
      rw [if_neg (List.cons_ne_nil d ds), ← hrest, History.waiting_fates_undone, hwaiting]
      exact filter_waitsFor L hs

/-- Rolling back to a savepoint undoes it and those inside it. -/
theorem undone (L : Ledger s h) (c : Surroundings) {id : Nat} (hid : id ∈ s.path) :
    Ledger ((s.dropInside id).undoInnermost c) (h ++ History.fates .undone (s.upTo id)) := by
  obtain ⟨inside, state, rest, hs, hfirst⟩ := Session.exists_outline_eq hid
  obtain ⟨hcloses, hqueue⟩ := Session.closes_undoTo c hs hfirst
  have houtline : ((s.dropInside id).undoInnermost c).outline = rest := by
    rw [hcloses.outline, hs, List.append_cons, List.drop_left' (by
      rw [List.length_append, List.length_singleton])]
  have E : Ends .undone (inside ++ [(id, state)]) s ((s.dropInside id).undoInnermost c) :=
    { outline := by rw [houtline, hs, List.append_cons]
      created := hcloses.created
      savepoints := hcloses.savepoints
      ways := Or.inr (Or.inl rfl)
      released := nofun
      left := nofun }
  rw [Session.upTo_eq hs hfirst]
  refine L.ended E (hcloses.sound L.sound) ?_ fun w hw => ?_
  · rw [hqueue, Session.path_eq, houtline]
    exact queue_undone L hs
  · rw [hqueue] at hw
    split at hw
    · cases hw
    · exact (List.mem_filter.mp hw).1

/-- Rolling back undoes all transactions. -/
theorem undoneAll (L : Ledger s h) (c : Surroundings) (hs : s.stack ≠ []) :
    Ledger (s.undoAll c) (h ++ History.fates .undone s.path) := by
  obtain ⟨hcloses, hqueue⟩ := Session.closes_undoAll c hs
  have houtline : (s.undoAll c).outline = [] := by rw [hcloses.outline, List.drop_length]
  have E : Ends .undone s.outline s (s.undoAll c) :=
    { outline := by rw [houtline, List.append_nil]
      created := hcloses.created
      savepoints := hcloses.savepoints
      ways := Or.inr (Or.inl rfl)
      released := nofun
      left := nofun }
  rw [Session.path_eq]
  refine L.ended E (hcloses.sound L.sound) ?_ fun w hw => ?_
  · rw [hqueue, Session.path_eq, houtline, List.map_nil, History.waiting_nil]
  · rw [hqueue] at hw
    cases hw

/-- Leaving a broken savepoint ends it, and its writes stay. -/
theorem leaves (L : Ledger s h) {id : Nat} (hbroken : (id, .broken) ∈ s.outline) :
    Ledger (s.dropInside id).pop (h ++ History.fates .left [id]) := by
  -- only the innermost transaction can be broken
  obtain ⟨rest, hs⟩ : ∃ rest, s.outline = (id, .broken) :: rest := by
    have houter := L.outer
    cases hs : s.outline with
    | nil =>
        rw [hs] at hbroken
        cases hbroken
    | cons d rest =>
        rw [hs] at hbroken houter
        rcases List.mem_cons.mp hbroken with rfl | hmem
        · exact ⟨rest, rfl⟩
        · cases houter _ hmem
  have hinnermost : s.outline = [] ++ (id, .broken) :: rest := hs
  obtain ⟨hcloses, hqueue⟩ := Session.closes_leave hinnermost List.not_mem_nil
  have houtline : (s.dropInside id).pop.outline = rest := by
    rw [hcloses.outline, hs]
    rfl
  have E : Ends .left [(id, .broken)] s (s.dropInside id).pop :=
    { outline := by rw [houtline, hs]; rfl
      created := hcloses.created
      savepoints := hcloses.savepoints
      ways := Or.inr (Or.inr rfl)
      released := nofun
      left := fun _ e he => by rw [List.mem_singleton.mp he] }
  have hpath : s.path = id :: rest.map Prod.fst := by
    rw [Session.path_eq, hs, List.map_cons]
  refine L.ended E (hcloses.sound L.sound) ?_ fun w hw => ?_
  · rw [hqueue, Session.path_eq, houtline]
    cases hrest : rest with
    | nil => rw [if_pos rfl, List.map_nil, History.waiting_nil]
    | cons d ds =>
        rw [if_neg (List.cons_ne_nil d ds), ← hrest, L.queue]
        have hne : rest.map Prod.fst ≠ [] := by rw [hrest]; simp
        refine (History.waiting_congr ?_ ?_ ?_ hne (by rw [hpath]; simp) ?_).symm
        · rw [History.captures_append_fates]
        · rw [History.met_append_fates h (by decide)]
        · rw [History.met_append_fates h (by decide)]
        · rw [hpath, ← List.singleton_append, getLast?_append_right hne]
  · rw [hqueue] at hw
    split at hw
    · cases hw
    · exact hw

/-- A session is closed: everything that is not committed is undone. -/
theorem close (L : Ledger s h) {ids : List Nat} (houtline : t.outline = [])
    (hcreated : t.created = s.created) (hsavepoints : t.savepoints = s.savepoints)
    (hsound : t.Sound) (hqueue : t.queue = [])
    (hids : ∀ id ∈ ids, id ∈ s.path)
    (hbroken : ∀ id ∈ s.path, id ∈ h.met .broken → id ∈ ids) :
    Ledger t (h ++ History.fates .undone ids) := by
  have hpath : t.path = [] := by rw [Session.path_eq, houtline, List.map_nil]
  have hsame {f : Fate} (hf : .undone ≠ f) : (h ++ History.fates .undone ids).met f = h.met f :=
    History.met_append_fates h hf ids
  refine { sound := hsound, descending := by rw [hpath]; exact List.Pairwise.nil,
           numbered := by rw [hpath]; exact fun id hid => absurd hid List.not_mem_nil,
           met := ?met, captured := ?captured,
           outer := by rw [houtline]; exact fun e he => absurd he List.not_mem_nil,
           unfinished := by rw [hpath]; exact fun id hid => absurd hid List.not_mem_nil,
           broken := by rw [houtline]; exact fun e he => absurd he List.not_mem_nil,
           committed := by rw [houtline]; exact fun e he => absurd he List.not_mem_nil,
           fallen := ?fallen, left := ?left, released := ?released, torn := ?torn,
           queue := by rw [hqueue, hpath, History.waiting_nil],
           nested := by rw [hqueue]; exact fun w hw => absurd hw List.not_mem_nil,
           passed := by rw [hqueue]; exact fun w hw => absurd hw List.not_mem_nil,
           named := ?named }
  case named =>
    rw [hpath, hcreated, hsavepoints]
    exact fun e he => ⟨(L.named e he).1, nofun⟩
  case met =>
    intro f id hid
    rw [hcreated]
    rcases History.mem_met_fates.mp hid with hid | ⟨_, hid⟩
    · exact L.met f id hid
    · exact L.numbered id (hids id hid)
  case captured =>
    rw [hcreated, History.captures_append_fates]
    exact L.captured
  case fallen =>
    intro id hid
    rw [hsame (by decide)] at hid
    rw [hsame (f := .left) (by decide)]
    rcases L.fallen id hid with hopen | hu | hl
    · exact Or.inr (Or.inl (History.mem_met_fates.mpr (Or.inr ⟨rfl, hbroken id hopen hid⟩)))
    · exact Or.inr (Or.inl (History.mem_met_fates.mpr (Or.inl hu)))
    · exact Or.inr (Or.inr hl)
  case left =>
    rw [hsame (by decide), hsame (by decide)]
    exact L.left
  case released =>
    intro id hid
    rw [hsame (by decide)] at hid
    rw [hsame (f := .broken) (by decide), hsame (f := .committed) (by decide)]
    obtain ⟨hb, hu, hc⟩ := L.released id hid
    refine ⟨hb, fun hmem => ?_, hc⟩
    rcases History.mem_met_fates.mp hmem with hmem | ⟨_, hmem⟩
    · exact hu hmem
    · exact (L.unfinished id (hids id hmem)).1 hid
  case torn =>
    intro vs hvs w hw
    rw [hsame (by decide)]
    rcases List.mem_append.mp hvs with hvs | hvs
    · exact L.torn vs hvs w hw
    · exact absurd hvs (History.captured_notMem_fates vs .undone ids)

end Ledger

end Typeahead
