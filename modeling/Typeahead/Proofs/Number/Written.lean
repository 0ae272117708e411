import Mathlib.Data.List.Basic
import Typeahead.Number.Shortest
import Typeahead.Proofs.Number.Numerals
import Typeahead.Value.Display

/-!
# Numbers as they are written

A natural number is written in digits that have its value, and zeros in front of them do not
matter.  A fraction is written without commas, and only a few digits stand in front of its point
or of its exponent.
-/

namespace Typeahead

namespace Text

/-- ASCII digits are digits. -/
theorem digitValue_of_ascii {c : Char} (h : c.isDigit = true) :
    digitValue? c = some (c.toNat - '0'.toNat) := by
  have hrange : '0' ≤ c ∧ c ≤ '9' := by
    simpa [Char.isDigit, Char.le_def] using h
  refine Numeral.digitValue_of_asciiDigit ?_
  rw [Numeral.asciiDigit?, if_pos hrange]

theorem isDigit_of_ascii {c : Char} (h : c.isDigit = true) : isDigit c = true := by
  rw [isDigit, digitValue_of_ascii h]
  rfl

theorem ascii_of_mem_toDigits {n : Nat} {c : Char} (h : c ∈ Nat.toDigits 10 n) :
    c.isDigit = true :=
  Nat.isDigit_of_mem_toDigits (by decide) (by decide) h

theorem comma_notMem_toDigits (n : Nat) : ',' ∉ Nat.toDigits 10 n := fun h =>
  absurd (ascii_of_mem_toDigits h) (by decide)

/-- The digits of a number have its value. -/
theorem ofDigits_toDigits (n : Nat) :
    ofDigits ((Nat.toDigits 10 n).filterMap digitValue?) = n := by
  have hvalues : (Nat.toDigits 10 n).filterMap digitValue? =
      (Nat.toDigits 10 n).map fun c => c.toNat - '0'.toNat := by
    rw [← List.filterMap_eq_map]
    exact List.filterMap_congr fun c hc => digitValue_of_ascii (ascii_of_mem_toDigits hc)
  rw [hvalues, ofDigits, List.foldl_map]
  exact Nat.ofDigitChars_ten_toDigits

/-- Zeros in front of a number do not change it. -/
theorem ofDigits_zeros (k : Nat) (ds : List Nat) :
    ofDigits (List.replicate k 0 ++ ds) = ofDigits ds := by
  induction k with
  | zero => rfl
  | succ k ih =>
      rw [List.replicate_succ, List.cons_append]
      exact ih

/-- A number of few digits is below a power of ten. -/
theorem length_toDigits_le {n k : Nat} (hk : 0 < k) (h : n < Nat.pow 10 k) :
    (Nat.toDigits 10 n).length ≤ k :=
  (Nat.length_toDigits_le_iff (by decide) hk).mpr h

/-- A whole number is written with a sign if it is negative, and with its digits. -/
theorem toList_toString (n : Int) :
    (toString n).toList = (if n < 0 then ['-'] else []) ++ Nat.toDigits 10 n.natAbs := by
  cases n with
  | ofNat m =>
      have hnonneg : ¬ Int.ofNat m < 0 := Int.not_lt.mpr (Int.natCast_nonneg m)
      rw [if_neg hnonneg]
      exact String.toList_ofList
  | negSucc m =>
      have hwritten : toString (Int.negSucc m) =
          "-" ++ String.ofList (Nat.toDigits 10 (m + 1)) := rfl
      rw [if_pos (Int.negSucc_lt_zero m), hwritten, String.toList_append]
      exact congrArg (['-'] ++ ·) String.toList_ofList

end Text

namespace FloatStyle

/-- Only so many digits are written in front of the point. -/
theorem positional_eq (ds : List Char) (point : Int) : ∃ front back,
    positional ds point = front ++ '.' :: back ∧ (front.length : Int) ≤ max 1 point := by
  rw [positional]
  split
  · exact ⟨['0'], _, rfl, Int.le_max_left 1 point⟩
  · split
    · refine ⟨ds ++ zeros (point - ds.length), ['0'], by simp, ?_⟩
      rw [List.length_append, zeros, List.length_replicate]
      omega
    · refine ⟨ds.take point.toNat, ds.drop point.toNat, rfl, ?_⟩
      have hle := List.length_take_le point.toNat ds
      omega

/-- With an exponent there is one digit in front of the point at most. -/
theorem scientific_eq (style : FloatStyle) (ds : List Char) (point : Int) : ∃ front stop back,
    style.scientific ds point = front ++ stop :: back ∧ (stop = '.' ∨ stop = 'e') ∧
      front.length ≤ 1 := by
  unfold scientific
  cases ds with
  | nil => exact ⟨[], 'e', _, rfl, Or.inr rfl, Nat.zero_le 1⟩
  | cons d ds =>
      cases ds with
      | nil => exact ⟨[d], 'e', _, rfl, Or.inr rfl, Nat.le_refl 1⟩
      | cons c ds => exact ⟨[d], '.', _, rfl, Or.inl rfl, Nat.le_refl 1⟩

/-- A fraction is written with a point or an exponent behind a few digits. -/
theorem magnitude_eq (style : FloatStyle) (m : Nat) (e : Int) : ∃ front stop back,
    style.magnitude m e = front ++ stop :: back ∧ (stop = '.' ∨ stop = 'e') ∧
      (front.length : Int) ≤ max 1 style.greatestPoint := by
  rw [magnitude]
  split
  · exact ⟨['0'], '.', ['0'], rfl, Or.inl rfl, Int.le_max_left 1 _⟩
  · dsimp only
    split
    · next hpoint =>
      obtain ⟨front, back, heq, hle⟩ := positional_eq (Nat.toDigits 10 (Shortest.digits m e).1) _
      exact ⟨front, '.', back, heq, Or.inl rfl, by omega⟩
    · obtain ⟨front, stop, back, heq, hstop, hle⟩ :=
        style.scientific_eq (Nat.toDigits 10 (Shortest.digits m e).1) _
      exact ⟨front, stop, back, heq, hstop, by omega⟩

theorem comma_notMem_positional {ds : List Char} (h : ',' ∉ ds) (point : Int) :
    ',' ∉ positional ds point := by
  have hzeros (n : Int) : ',' ∉ zeros n := by simp [zeros, List.mem_replicate]
  rw [positional]
  split
  · simp [hzeros, h]
  · split
    · simp [hzeros, h]
    · intro hmem
      rcases List.mem_append.mp hmem with hmem | hmem
      · exact h (List.mem_of_mem_take hmem)
      · rcases List.mem_cons.mp hmem with heq | hmem
        · exact absurd heq (by decide)
        · exact h (List.mem_of_mem_drop hmem)

theorem comma_notMem_scientific (style : FloatStyle) {ds : List Char} (h : ',' ∉ ds)
    (point : Int) : ',' ∉ style.scientific ds point := by
  have hexponent (width n : Nat) : ',' ∉ (padded width n).toList := by
    rw [padded, String.toList_ofList, List.mem_append, not_or]
    exact ⟨by simp [List.mem_replicate], Text.comma_notMem_toDigits n⟩
  unfold scientific
  dsimp only
  rw [List.mem_append, List.mem_append, not_or, not_or]
  refine ⟨⟨?_, ?_⟩, hexponent _ _⟩
  · cases ds with
    | nil => exact List.not_mem_nil
    | cons d ds =>
        cases ds with
        | nil => exact h
        | cons c ds =>
            simp only [List.mem_cons, not_or] at h ⊢
            exact ⟨h.1, by decide, h.2⟩
  · split
    · decide
    · decide

theorem comma_notMem_text (style : FloatStyle) (x : Binary64) : ',' ∉ (style.text x).toList := by
  cases x with
  | nan => exact show ',' ∉ "nan".toList by decide
  | infinite negative =>
      cases negative with
      | false => exact show ',' ∉ "inf".toList by decide
      | true => exact show ',' ∉ "-inf".toList by decide
  | finite negative m e =>
      have hmagnitude : ',' ∉ style.magnitude m e := by
        rw [magnitude]
        split
        · decide
        · dsimp only
          split
          · exact comma_notMem_positional (Text.comma_notMem_toDigits _) _
          · exact style.comma_notMem_scientific (Text.comma_notMem_toDigits _) _
      rw [text, String.toList_ofList, List.mem_append, not_or]
      refine ⟨?_, hmagnitude⟩
      split
      · decide
      · exact List.not_mem_nil

end FloatStyle

end Typeahead
