import Mathlib.Data.List.Find
import Typeahead.Proofs.Value.Same
import Typeahead.Session.Object

/-!
# Rows under their keys

Which row is found under a key after rows were changed, inserted or removed.  The rows are
those of one table, with keys that tell them apart, `Row.Tabled`.
-/

namespace Typeahead

namespace Row

/-- The rows of one table, each under a key of its own. -/
structure Tabled (table : String) (rows : List Row) : Prop where
  table : ∀ r ∈ rows, r.table = table
  ids : ∀ r ∈ rows, r.key.IsId
  distinct : rows.Pairwise fun r q => r.key.same q.key = false

variable {table : String} {rows : List Row} {key k : Value} {r : Row}

theorem tabled_nil (table : String) : Tabled table [] :=
  ⟨fun _ h => absurd h List.not_mem_nil, fun _ h => absurd h List.not_mem_nil, List.Pairwise.nil⟩

theorem isAt_iff : r.isAt table key = true ↔ r.table = table ∧ r.key.same key = true := by
  rw [isAt, Bool.and_eq_true, beq_iff_eq]

theorem find?_eq_some (h : find? rows table key = some r) :
    r ∈ rows ∧ r.table = table ∧ r.key.same key = true :=
  ⟨List.mem_of_find?_eq_some h, isAt_iff.mp (List.find?_some h)⟩

namespace Tabled

/-- Another name of a key finds the same row. -/
theorem find?_congr (h : Tabled table rows) (hkey : key.IsId) (hk : key.same k = true) :
    find? rows table key = find? rows table k := by
  refine List.find?_congr fun r hr => ?_
  rw [Bool.eq_iff_iff, isAt_iff, isAt_iff]
  refine and_congr_right fun _ => ⟨fun hrk => ?_, fun hrk => ?_⟩
  · exact (h.ids r hr).trans hrk hk
  · exact (h.ids r hr).trans hrk (hkey.symm hk)

/-- A row is found under its own key. -/
theorem find?_key (h : Tabled table rows) (hr : r ∈ rows) : find? rows table r.key = some r := by
  obtain ⟨htable, hids, hdistinct⟩ := h
  induction rows with
  | nil => cases hr
  | cons q rows ih =>
      rw [find?, List.find?_cons]
      rcases List.mem_cons.mp hr with rfl | hr'
      · have hat : r.isAt table r.key = true := isAt_iff.mpr ⟨htable r hr, (hids r hr).refl⟩
        rw [hat]
      · have hne := (List.pairwise_cons.mp hdistinct).1 r hr'
        have hat : q.isAt table r.key = false := by rw [isAt, hne, Bool.and_false]
        rw [hat]
        exact ih hr' (fun p hp => htable p (List.mem_cons_of_mem q hp))
          (fun p hp => hids p (List.mem_cons_of_mem q hp)) hdistinct.of_cons

/-- A row is put in the place of the one under its key. -/
theorem find?_change (h : Tabled table rows) (htable : r.table = table) (hid : r.key.IsId)
    (k : Value) : find? (change rows table r.key fun _ => r) table k =
      if r.key.same k then (find? rows table r.key).map fun _ => r else find? rows table k := by
  have hat : ∀ q ∈ rows, (isAt table k ∘ fun q => if q.isAt table r.key then r else q) q =
      q.isAt table k := by
    intro q hq
    rw [Function.comp_apply]
    cases hqr : q.isAt table r.key with
    | false => rfl
    | true =>
        obtain ⟨hqtable, hsame⟩ := isAt_iff.mp hqr
        rw [if_pos rfl, isAt, isAt, htable, hqtable, (h.ids q hq).same_congr hsame k]
  rw [find?, change, List.find?_map, List.find?_congr hat, ← find?]
  cases hrk : r.key.same k with
  | true =>
      rw [if_pos rfl, h.find?_congr hid hrk]
      refine Option.map_congr fun q hq => ?_
      obtain ⟨hq, hqtable, hqk⟩ := find?_eq_some hq
      have hqr : q.isAt table r.key = true :=
        isAt_iff.mpr ⟨hqtable, (h.ids q hq).trans hqk (hid.symm hrk)⟩
      rw [if_pos hqr]
  | false =>
      rw [if_neg (by simp)]
      cases hq : find? rows table k with
      | none => rfl
      | some q =>
          obtain ⟨hqmem, _, hqk⟩ := find?_eq_some hq
          have hqr : q.isAt table r.key = false := by
            rw [Bool.eq_false_iff]
            intro hqr
            -- the key of the changed row would be another name of the one asked for
            rw [← (h.ids q hqmem).same_congr (isAt_iff.mp hqr).2 k, hqk] at hrk
            cases hrk
          simp [hqr]

theorem change (h : Tabled table rows) (htable : r.table = table) (hid : r.key.IsId) :
    Tabled table (change rows table r.key fun _ => r) := by
  refine ⟨fun q hq => ?_, fun q hq => ?_, ?_⟩
  · obtain ⟨p, hp, rfl⟩ := List.mem_map.mp hq
    split
    · exact htable
    · exact h.table p hp
  · obtain ⟨p, hp, rfl⟩ := List.mem_map.mp hq
    split
    · exact hid
    · exact h.ids p hp
  · refine List.pairwise_map.mpr (h.distinct.imp_of_mem fun {p q} hp hq hpq => ?_)
    -- a row keeps its key up to another name of it
    have hname : ∀ q ∈ rows, q.key.same (if q.isAt table r.key then r else q).key = true := by
      intro q hq
      split
      · next hat => exact (isAt_iff.mp hat).2
      · exact (h.ids q hq).refl
    rw [Bool.eq_false_iff]
    intro hsame
    have hp' := (h.ids p hp).trans (hname p hp) hsame
    have hpq' := (h.ids p hp).trans hp' ((h.ids q hq).symm (hname q hq))
    rw [hpq] at hpq'
    cases hpq'

/-- A row is inserted under a key that is free. -/
theorem append (h : Tabled table rows) (htable : r.table = table) (hid : r.key.IsId)
    (hfree : find? rows table r.key = none) : Tabled table (rows ++ [r]) := by
  refine ⟨fun q hq => ?_, fun q hq => ?_, ?_⟩
  · rcases List.mem_append.mp hq with hq | hq
    · exact h.table q hq
    · rw [List.mem_singleton.mp hq]
      exact htable
  · rcases List.mem_append.mp hq with hq | hq
    · exact h.ids q hq
    · rw [List.mem_singleton.mp hq]
      exact hid
  · refine List.pairwise_append.mpr ⟨h.distinct, List.pairwise_singleton _ _, fun q hq p hp => ?_⟩
    rw [List.mem_singleton.mp hp]
    have hat := List.find?_eq_none.mp hfree q hq
    rw [isAt_iff] at hat
    rw [Bool.eq_false_iff]
    exact fun hsame => hat ⟨h.table q hq, hsame⟩

theorem remove (h : Tabled table rows) (key : Value) : Tabled table (remove rows table key) :=
  ⟨fun r hr => h.table r (List.mem_filter.mp hr).1, fun r hr => h.ids r (List.mem_filter.mp hr).1,
    h.distinct.filter _⟩

/-- The row under a key is removed, and all others stay. -/
theorem find?_remove (h : Tabled table rows) (hkey : key.IsId) (k : Value) :
    find? (Row.remove rows table key) table k =
      if key.same k then none else find? rows table k := by
  cases hk : key.same k with
  | true =>
      rw [if_pos rfl]
      refine List.find?_eq_none.mpr fun r hr hat => ?_
      obtain ⟨hr, hleft⟩ := List.mem_filter.mp hr
      obtain ⟨htable, hrk⟩ := isAt_iff.mp hat
      have hgone : r.isAt table key = true :=
        isAt_iff.mpr ⟨htable, (h.ids r hr).trans hrk (hkey.symm hk)⟩
      rw [hgone] at hleft
      cases hleft
  | false =>
      rw [if_neg (by simp), find?, Row.remove, List.find?_filter, find?]
      refine List.find?_congr fun r hr => ?_
      cases hat : r.isAt table k with
      | false => simp
      | true =>
          have hstays : r.isAt table key = false := by
            rw [Bool.eq_false_iff]
            intro hgone
            rw [← (h.ids r hr).same_congr (isAt_iff.mp hgone).2 k, (isAt_iff.mp hat).2] at hk
            cases hk
          simp [hstays]

end Tabled

/-- A row at the end is found when there is no other one. -/
theorem find?_append (rows : List Row) (htable : r.table = table) (k : Value) :
    find? (rows ++ [r]) table k =
      (find? rows table k).or (if r.key.same k then some r else none) := by
  have hat : r.isAt table k = r.key.same k := by
    rw [isAt, htable, beq_self_eq_true, Bool.true_and]
  rw [find?, List.find?_append, ← find?, List.find?_cons, hat]
  cases r.key.same k with
  | false => rfl
  | true => rfl

end Row

end Typeahead
