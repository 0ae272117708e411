import Typeahead.Text.Fields

/-!
# Cutting text into fields

Cutting takes joining back as long as no field has the separator in it.  Of the fields only empty
ones at the end are ever dropped.
-/

namespace Typeahead

namespace Text

theorem fields_ne_nil (separator : Char) (cs : List Char) : fields separator cs ≠ [] := by
  cases cs with
  | nil => simp [fields]
  | cons c cs =>
      rw [fields]
      split
      · simp
      · split
        · simp
        · simp

theorem fields_cons_of_ne {separator c : Char} (h : c ≠ separator) (cs : List Char) :
    ∃ f fs, fields separator cs = f :: fs ∧ fields separator (c :: cs) = (c :: f) :: fs := by
  rw [fields, if_neg h]
  cases hfields : fields separator cs with
  | nil => exact absurd hfields (fields_ne_nil separator cs)
  | cons f fs => exact ⟨f, fs, rfl, rfl⟩

theorem fields_of_notMem {separator : Char} {cs : List Char} (h : separator ∉ cs) :
    fields separator cs = [cs] := by
  induction cs with
  | nil => rfl
  | cons c cs ih =>
      obtain ⟨hc, hcs⟩ := List.ne_and_not_mem_of_not_mem_cons h
      obtain ⟨f, fs, hfields, heq⟩ := fields_cons_of_ne hc.symm cs
      rw [ih hcs] at hfields
      obtain ⟨rfl, rfl⟩ := List.cons.inj hfields
      exact heq

theorem fields_append_cons {separator : Char} {cs : List Char} (h : separator ∉ cs)
    (rest : List Char) : fields separator (cs ++ separator :: rest) =
      cs :: fields separator rest := by
  induction cs with
  | nil => simp [fields]
  | cons c cs ih =>
      obtain ⟨hc, hcs⟩ := List.ne_and_not_mem_of_not_mem_cons h
      obtain ⟨f, fs, hfields, heq⟩ := fields_cons_of_ne hc.symm (cs ++ separator :: rest)
      rw [ih hcs] at hfields
      obtain ⟨rfl, rfl⟩ := List.cons.inj hfields
      exact heq

/-- Cutting takes joining back. -/
theorem fields_intercalate {separator : Char} {xs : List (List Char)} (hne : xs ≠ [])
    (h : ∀ x ∈ xs, separator ∉ x) : fields separator ([separator].intercalate xs) = xs := by
  induction xs with
  | nil => exact absurd rfl hne
  | cons x xs ih =>
      have hx := h x List.mem_cons_self
      cases xs with
      | nil => simpa using fields_of_notMem hx
      | cons y ys =>
          have hrest := ih (by simp) fun z hz => h z (List.mem_cons_of_mem x hz)
          rw [List.intercalate_cons_cons, List.append_assoc, List.singleton_append,
            fields_append_cons hx, hrest]

/-- Separators at the end give empty fields. -/
theorem fields_replicate {separator : Char} {last : List Char} (h : separator ∉ last) (n : Nat) :
    fields separator (last ++ List.replicate n separator) = last :: List.replicate n [] := by
  induction n generalizing last with
  | zero => simpa using fields_of_notMem h
  | succ n ih =>
      rw [List.replicate_succ, fields_append_cons h, ← List.nil_append (List.replicate n separator),
        ih List.not_mem_nil, ← List.replicate_succ]

theorem length_le_of_mem_fields {separator : Char} {cs piece : List Char}
    (h : piece ∈ fields separator cs) : piece.length ≤ cs.length := by
  induction cs generalizing piece with
  | nil => exact Nat.le_of_eq (congrArg List.length (List.mem_singleton.mp h))
  | cons c cs ih =>
      by_cases hc : c = separator
      · rw [fields, if_pos hc] at h
        rcases List.mem_cons.mp h with rfl | h
        · exact Nat.zero_le _
        · exact Nat.le_succ_of_le (ih h)
      · obtain ⟨f, fs, hfields, heq⟩ := fields_cons_of_ne hc cs
        rw [heq] at h
        rw [hfields] at ih
        rcases List.mem_cons.mp h with rfl | h
        · exact Nat.succ_le_succ (ih List.mem_cons_self)
        · exact Nat.le_succ_of_le (ih (List.mem_cons_of_mem f h))

/-! Empty fields at the end. -/

theorem dropEmptyTail_cons_of_ne (f : List Char) {fs : List (List Char)}
    (h : dropEmptyTail fs ≠ []) : dropEmptyTail (f :: fs) = f :: dropEmptyTail fs := by
  rw [dropEmptyTail]
  split
  · contradiction
  · rfl

theorem dropEmptyTail_cons_of_eq (f : List Char) {fs : List (List Char)}
    (h : dropEmptyTail fs = []) : dropEmptyTail (f :: fs) = if f.isEmpty then [] else [f] := by
  rw [dropEmptyTail, h]

theorem dropEmptyTail_replicate (n : Nat) : dropEmptyTail (List.replicate n []) = [] := by
  induction n with
  | zero => rfl
  | succ n ih =>
      rw [List.replicate_succ, dropEmptyTail_cons_of_eq _ ih, List.isEmpty_nil, if_pos rfl]

/-- Empty fields in front of another one stay. -/
theorem dropEmptyTail_append (fs : List (List Char)) {f : List Char} (hf : f ≠ []) (n : Nat) :
    dropEmptyTail (fs ++ f :: List.replicate n []) = fs ++ [f] := by
  induction fs with
  | nil =>
      rw [List.nil_append, dropEmptyTail_cons_of_eq _ (dropEmptyTail_replicate n),
        if_neg (by simpa using hf)]
      rfl
  | cons g fs ih =>
      rw [List.cons_append, dropEmptyTail_cons_of_ne _ (by simp [ih]), ih]
      rfl

theorem mem_of_mem_dropEmptyTail {fs : List (List Char)} {f : List Char}
    (h : f ∈ dropEmptyTail fs) : f ∈ fs := by
  induction fs with
  | nil => cases h
  | cons g fs ih =>
      by_cases hnone : dropEmptyTail fs = []
      · rw [dropEmptyTail_cons_of_eq g hnone] at h
        split at h
        · cases h
        · rw [List.mem_singleton.mp h]
          exact List.mem_cons_self
      · rw [dropEmptyTail_cons_of_ne g hnone] at h
        rcases List.mem_cons.mp h with rfl | h
        · exact List.mem_cons_self
        · exact List.mem_cons_of_mem g (ih h)

/-- Only empty fields are dropped. -/
theorem mem_dropEmptyTail {fs : List (List Char)} {f : List Char} (hf : f ≠ []) (h : f ∈ fs) :
    f ∈ dropEmptyTail fs := by
  obtain ⟨before, after, rfl⟩ := List.append_of_mem h
  induction before with
  | nil =>
      rw [List.nil_append]
      by_cases hnone : dropEmptyTail after = []
      · rw [dropEmptyTail_cons_of_eq f hnone, if_neg (by simpa using hf)]
        exact List.mem_singleton_self f
      · rw [dropEmptyTail_cons_of_ne f hnone]
        exact List.mem_cons_self
  | cons g before ih =>
      have hmem := ih (List.mem_append_right _ List.mem_cons_self)
      rw [List.cons_append, dropEmptyTail_cons_of_ne g (List.ne_nil_of_mem hmem)]
      exact List.mem_cons_of_mem g hmem

end Text

end Typeahead
