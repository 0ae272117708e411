import Mathlib.Data.List.Nodup
import Typeahead.Options

/-!
# Options after a change

What is found under a name once another name was given a value, or once missing names
were supplied.  Supplying keeps what is there.
-/

namespace Typeahead

namespace Options

theorem get?_cons (e : String × Value) (o : Options) (n : String) :
    get? (e :: o) n = if e.1 = n then some e.2 else get? o n := by
  by_cases h : e.1 = n
  · simp [get?, h]
  · simp [get?, h]

theorem get?_set (o : Options) (n m : String) (v : Value) :
    get? (set o n v) m = if n = m then some v else get? o m := by
  induction o with
  | nil => simp [set, get?]
  | cons e o ih =>
      obtain ⟨k, w⟩ := e
      by_cases hk : k = n
      · subst hk
        by_cases hm : k = m
        · simp [set, get?_cons, hm]
        · simp [set, get?_cons, hm]
      · have hset : set ((k, w) :: o) n v = (k, w) :: set o n v := by simp [set, hk]
        rw [hset, get?_cons, get?_cons, ih]
        by_cases hm : k = m
        · have hn : ¬ n = m := fun h => hk (hm.trans h.symm)
          simp [hm, hn]
        · simp [hm]

theorem names_set (o : Options) (n : String) (v : Value) : (set o n v).map (·.1) =
    if n ∈ o.map (·.1) then o.map (·.1) else o.map (·.1) ++ [n] := by
  induction o with
  | nil => rfl
  | cons e o ih =>
      by_cases he : e.1 = n
      · have hset : set (e :: o) n v = (e.1, v) :: o := by simp [set, he]
        rw [hset, List.map_cons, List.map_cons, if_pos (by simp [he])]
      · have hset : set (e :: o) n v = e :: set o n v := by simp [set, he]
        have hmem : n ∈ (e :: o).map (·.1) ↔ n ∈ o.map (·.1) := by
          rw [List.map_cons, List.mem_cons, or_iff_right fun h => he h.symm]
        rw [hset, List.map_cons, ih]
        by_cases hn : n ∈ o.map (·.1)
        · rw [if_pos hn, if_pos (hmem.mpr hn), List.map_cons]
        · rw [if_neg hn, if_neg fun h => hn (hmem.mp h), List.map_cons, List.cons_append]

theorem nodup_set {o : Options} (h : (o.map (·.1)).Nodup) (n : String) (v : Value) :
    ((set o n v).map (·.1)).Nodup := by
  rw [names_set]
  split
  · exact h
  · next hn =>
    rw [← List.concat_eq_append]
    exact h.concat hn

theorem get?_eq_none {o : Options} {n : String} (h : n ∉ o.map (·.1)) : get? o n = none := by
  rw [get?, Option.map_eq_none_iff, List.find?_eq_none]
  intro e he
  have hne : e.1 ≠ n := fun heq => h (heq ▸ List.mem_map_of_mem he)
  simpa using hne

theorem has_eq_isSome (o : Options) (n : String) : has o n = (get? o n).isSome := by
  induction o with
  | nil => rfl
  | cons e o ih =>
      rw [get?_cons]
      by_cases h : e.1 = n
      · simp [has, h]
      · have htail : has (e :: o) n = has o n := by simp [has, h]
        rw [htail, ih, if_neg h]

theorem has_set (o : Options) (n m : String) (v : Value) :
    has (set o n v) m = (decide (n = m) || has o m) := by
  rw [has_eq_isSome, has_eq_isSome, get?_set]
  by_cases h : n = m
  · simp [h]
  · simp [h]

theorem getD_set (o : Options) (n m : String) (v d : Value) :
    getD (set o n v) m d = if n = m then v else getD o m d := by
  rw [getD, getD, get?_set]
  by_cases h : n = m
  · simp [h]
  · simp [h]

/-- Names that are missing are supplied; the others keep their values. -/
theorem get?_supply (f : String → Value) (names : List String) (o : Options) (n : String) :
    get? (names.foldl (fun values a => if has values a then values else set values a (f a)) o) n =
      (get? o n).or (if n ∈ names then some (f n) else none) := by
  induction names generalizing o with
  | nil => simp
  | cons a names ih =>
      rw [List.foldl_cons, ih]
      by_cases ha : has o a = true
      · rw [if_pos ha]
        by_cases hn : n = a
        · subst hn
          rw [has_eq_isSome] at ha
          obtain ⟨v, hv⟩ := Option.isSome_iff_exists.mp ha
          simp [hv]
        · simp [hn]
      · rw [if_neg ha, get?_set]
        by_cases hn : n = a
        · subst hn
          have hnone : get? o n = none := by
            rw [has_eq_isSome] at ha
            simpa using ha
          simp [hnone]
        · have hne : ¬ a = n := fun h => hn h.symm
          simp [hn, hne]

/-- Several names are given values. -/
theorem getD_assign (f : String → Value) (names : List String) (o : Options) (n : String)
    (d : Value) : getD (names.foldl (fun values a => set values a (f a)) o) n d =
      if n ∈ names then f n else getD o n d := by
  induction names generalizing o with
  | nil => simp
  | cons a names ih =>
      rw [List.foldl_cons, ih, getD_set]
      by_cases hn : n ∈ names
      · simp [hn]
      · by_cases ha : a = n
        · simp [ha]
        · have hne : ¬ n = a := fun h => ha h.symm
          simp [hn, ha, hne]

/-- A list of names with their values. -/
theorem getD_map (f : String → Value) (names : List String) (n : String) (d : Value) :
    getD (names.map fun a => (a, f a)) n d = if n ∈ names then f n else d := by
  induction names with
  | nil => simp [getD, get?]
  | cons a names ih =>
      rw [List.map_cons, getD, get?_cons]
      by_cases ha : a = n
      · simp [ha]
      · have hne : ¬ n = a := fun h => ha h.symm
        rw [if_neg ha, ← getD, ih]
        simp [hne]

/-- A name that is not given on top keeps its value. -/
theorem get?_override_of_notMem {base top : Options} {n : String} (h : ∀ e ∈ top, e.1 ≠ n) :
    get? (override base top) n = get? base n := by
  induction top generalizing base with
  | nil => rfl
  | cons e top ih =>
      rw [override, List.foldl_cons, ← override, ih fun d hd => h d (List.mem_cons_of_mem e hd),
        get?_set, if_neg (h e List.mem_cons_self)]

/-- Options on top of others come first. -/
theorem get?_override {top : Options} (h : (top.map (·.1)).Nodup) (base : Options) (n : String) :
    get? (override base top) n = (get? top n).or (get? base n) := by
  induction top generalizing base with
  | nil => rfl
  | cons e top ih =>
      obtain ⟨hnew, htop⟩ := List.nodup_cons.mp h
      rw [override, List.foldl_cons, ← override, ih htop, get?_set, get?_cons]
      by_cases he : e.1 = n
      · rw [if_pos he, if_pos he, get?_eq_none (he ▸ hnew)]
        rfl
      · rw [if_neg he, if_neg he]

theorem get?_override_set {top : Options} (h : (top.map (·.1)).Nodup) (base : Options)
    (n m : String) (v : Value) : get? (override base (set top n v)) m =
      if n = m then some v else get? (override base top) m := by
  rw [get?_override (nodup_set h n v), get?_override h, get?_set]
  split
  · rfl
  · rfl

/-- A name that has a value keeps having one. -/
theorem isSome_get?_override {base : Options} (top : Options) {n : String}
    (h : (get? base n).isSome = true) : (get? (override base top) n).isSome = true := by
  induction top generalizing base with
  | nil => exact h
  | cons e top ih =>
      rw [override, List.foldl_cons, ← override]
      refine ih ?_
      rw [get?_set]
      split
      · rfl
      · exact h

end Options

end Typeahead
