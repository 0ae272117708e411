import Typeahead.Proofs.Number.Numerals
import Typeahead.Terms

/-!
# The number that a piece of text starts with

A piece starts with digits when only blanks and a sign stand in front of them,
`Terms.StartsWith`.  Of all the digits that a piece starts with, `Terms.leadingDigits` are the
most.  They are the number that the piece is read as: without any the piece counts as zero, and
beyond the digit limit it cannot be read.
-/

namespace Typeahead

namespace Text

theorem isBlank_of_isDigit {c : Char} (h : isDigit c = true) : isBlank c = false := by
  refine Bool.eq_false_iff.mpr fun hblank => ?_
  rw [isDigit, digitValue_of_isBlank hblank] at h
  cases h

theorem digitValue_lt {c : Char} {d : Nat} (h : digitValue? c = some d) : d < 10 := by
  obtain ⟨z, hz, rfl⟩ := Option.map_eq_some_iff.mp h
  have hrange := List.find?_some hz
  simp only [Bool.and_eq_true, decide_eq_true_eq] at hrange
  omega

/-- A number of at most so many digits is below that power of ten. -/
theorem ofDigits_lt {ds : List Nat} (h : ∀ d ∈ ds, d < 10) {k : Nat} (hk : ds.length ≤ k) :
    ofDigits ds < Nat.pow 10 k := by
  have hfold (a : Nat) : ds.foldl (fun n d => 10 * n + d) a < (a + 1) * 10 ^ ds.length := by
    clear hk
    induction ds generalizing a with
    | nil => simp
    | cons d ds ih =>
        have hd := h d List.mem_cons_self
        have hrest := ih (fun e he => h e (List.mem_cons_of_mem d he)) (10 * a + d)
        have hle : (10 * a + d + 1) * 10 ^ ds.length ≤ (10 * (a + 1)) * 10 ^ ds.length :=
          Nat.mul_le_mul_right _ (by omega)
        rw [List.foldl_cons, List.length_cons, Nat.pow_succ]
        calc _ < (10 * a + d + 1) * 10 ^ ds.length := hrest
          _ ≤ 10 * (a + 1) * 10 ^ ds.length := hle
          _ = (a + 1) * (10 ^ ds.length * 10) := by
              rw [Nat.mul_comm 10 (a + 1), Nat.mul_assoc, Nat.mul_comm 10]
  have hzero := hfold 0
  rw [Nat.zero_add, Nat.one_mul] at hzero
  exact Nat.lt_of_lt_of_le hzero (Nat.pow_le_pow_right (by decide) hk)

/-- All digits of a text have a value. -/
theorem length_digitValues {cs : List Char} (h : ∀ c ∈ cs, isDigit c = true) :
    (cs.filterMap digitValue?).length = cs.length :=
  List.filterMap_length_eq_length.mpr h

end Text

namespace Numeral

/-- What may stand between blanks and digits. -/
def signs : List (List Char) := [[], ['+'], ['-']]

/-- A text in two parts, the sign and the rest. -/
theorem exists_sign (cs : List Char) : ∃ sign ∈ signs, cs = sign ++ (splitSign cs).2 ∧
    (splitSign cs).1 = decide (sign = ['-']) := by
  unfold splitSign
  split
  · exact ⟨['-'], by simp [signs], rfl, rfl⟩
  · exact ⟨['+'], by simp [signs], rfl, rfl⟩
  · exact ⟨[], by simp [signs], rfl, rfl⟩

theorem splitSign_append {sign : List Char} (hsign : sign ∈ signs) {c : Char}
    (hc : Text.isDigit c = true) (cs : List Char) :
    splitSign (sign ++ c :: cs) = (decide (sign = ['-']), c :: cs) := by
  simp only [signs, List.mem_cons, List.not_mem_nil, or_false] at hsign
  rcases hsign with rfl | rfl | rfl
  · unfold splitSign
    split
    · next heq =>
      rw [(List.cons.inj heq).1] at hc
      exact absurd hc (by decide)
    · next heq =>
      rw [(List.cons.inj heq).1] at hc
      exact absurd hc (by decide)
    · rfl
  · rfl
  · rfl

theorem isBlank_of_mem_sign {sign : List Char} (hsign : sign ∈ signs) :
    ∀ c ∈ sign, Text.isBlank c = false := by
  intro c hc
  simp only [signs, List.mem_cons, List.not_mem_nil, or_false] at hsign
  rcases hsign with rfl | rfl | rfl
  · cases hc
  · rw [List.mem_singleton.mp hc]
    rfl
  · rw [List.mem_singleton.mp hc]
    rfl

theorem exceedsLimit_signed (negative : Bool) {n : Nat} (h : n < Nat.pow 10 digitLimit) :
    exceedsLimit (signed negative n) = false := by
  have habs : (signed negative n).natAbs = n := by
    cases negative with
    | false => rfl
    | true => exact Int.natAbs_neg n
  rw [exceedsLimit, habs]
  exact decide_eq_false (Nat.not_le.mpr h)

end Numeral

namespace Terms

open Text Numeral

/-- Whether digits stand at the front of a piece, behind nothing but blanks and a sign. -/
def StartsWith (piece ds : List Char) : Prop :=
  ∃ blanks sign tail, piece = blanks ++ (sign ++ (ds ++ tail)) ∧
    (∀ c ∈ blanks, isBlank c = true) ∧ sign ∈ signs ∧ ∀ c ∈ ds, isDigit c = true

/-- The digits of the number that a piece starts with. -/
def leadingDigits (piece : List Char) : List Char :=
  (splitSign (piece.dropWhile isBlank)).2.takeWhile isDigit

theorem isDigit_of_mem_leadingDigits {piece : List Char} {c : Char}
    (h : c ∈ leadingDigits piece) : isDigit c = true :=
  List.mem_takeWhile_imp h

/-- Blanks and a sign do not hide digits. -/
theorem splitSign_of_startsWith {blanks sign ds : List Char}
    (hblanks : ∀ c ∈ blanks, isBlank c = true) (hsign : sign ∈ signs)
    (hds : ∀ c ∈ ds, isDigit c = true) (hne : ds ≠ []) (tail : List Char) :
    splitSign ((blanks ++ (sign ++ (ds ++ tail))).dropWhile isBlank) =
      (decide (sign = ['-']), ds ++ tail) := by
  obtain ⟨c, ds, rfl⟩ := List.exists_cons_of_ne_nil hne
  have hc : isDigit c = true := hds c List.mem_cons_self
  have hstop : (sign ++ c :: (ds ++ tail)).dropWhile isBlank = sign ++ c :: (ds ++ tail) := by
    cases sign with
    | nil => exact List.dropWhile_cons_of_neg (by simp [isBlank_of_isDigit hc])
    | cons s sign =>
        have hs := isBlank_of_mem_sign hsign s List.mem_cons_self
        exact List.dropWhile_cons_of_neg (by simp [hs])
  rw [List.dropWhile_append_of_pos hblanks, List.cons_append, hstop, splitSign_append hsign hc]

theorem leadingDigits_append {blanks sign ds : List Char}
    (hblanks : ∀ c ∈ blanks, isBlank c = true) (hsign : sign ∈ signs)
    (hds : ∀ c ∈ ds, isDigit c = true) (hne : ds ≠ []) (tail : List Char) :
    leadingDigits (blanks ++ (sign ++ (ds ++ tail))) = ds ++ tail.takeWhile isDigit := by
  rw [leadingDigits, splitSign_of_startsWith hblanks hsign hds hne,
    List.takeWhile_append_of_pos hds]

theorem startsWith_leadingDigits (piece : List Char) : StartsWith piece (leadingDigits piece) := by
  obtain ⟨sign, hsign, hcut, _⟩ := exists_sign (piece.dropWhile isBlank)
  refine ⟨piece.takeWhile isBlank, sign,
    (splitSign (piece.dropWhile isBlank)).2.dropWhile isDigit, ?_,
    fun c => List.mem_takeWhile_imp, hsign, fun c => isDigit_of_mem_leadingDigits⟩
  rw [leadingDigits, List.takeWhile_append_dropWhile, ← hcut, List.takeWhile_append_dropWhile]

/-- No more digits than the leading ones stand at the front. -/
theorem StartsWith.length_le {piece ds : List Char} (h : StartsWith piece ds) :
    ds.length ≤ (leadingDigits piece).length := by
  obtain ⟨blanks, sign, tail, rfl, hblanks, hsign, hds⟩ := h
  by_cases hne : ds = []
  · rw [hne]
    exact Nat.zero_le _
  · rw [leadingDigits_append hblanks hsign hds hne, List.length_append]
    exact Nat.le_add_right _ _

/-- Whether a piece starts with a number of more digits than can be read. -/
def StartsTooLong (piece : List Char) : Prop :=
  ∃ ds, StartsWith piece ds ∧ digitLimit < ds.length

theorem startsTooLong_iff (piece : List Char) :
    StartsTooLong piece ↔ digitLimit < (leadingDigits piece).length := by
  constructor
  · rintro ⟨ds, hds, hlong⟩
    exact Nat.lt_of_lt_of_le hlong hds.length_le
  · intro hlong
    exact ⟨_, startsWith_leadingDigits piece, hlong⟩

/-- A piece is read by its leading digits. -/
theorem leadingInt_eq (piece : List Char) : leadingInt piece =
    if leadingDigits piece = [] then .ok 0
    else if digitLimit < (leadingDigits piece).length then
      .error (.unreadable (leadingDigits piece).length)
    else .ok (signed (splitSign (piece.dropWhile isBlank)).1
      (ofDigits ((leadingDigits piece).filterMap digitValue?))) := by
  have hlength := length_digitValues fun c (hc : c ∈ leadingDigits piece) =>
    isDigit_of_mem_leadingDigits hc
  have hempty : ((leadingDigits piece).filterMap digitValue?).isEmpty = true ↔
      leadingDigits piece = [] := by
    rw [List.isEmpty_iff_length_eq_zero, hlength, List.length_eq_zero_iff]
  have hunfold : leadingInt piece =
      if ((leadingDigits piece).filterMap digitValue?).isEmpty then .ok 0
      else if digitLimit < ((leadingDigits piece).filterMap digitValue?).length then
        .error (.unreadable ((leadingDigits piece).filterMap digitValue?).length)
      else .ok (signed (splitSign (piece.dropWhile isBlank)).1
        (ofDigits ((leadingDigits piece).filterMap digitValue?))) := rfl
  rw [hunfold, hlength]
  simp only [hempty]

/-- A piece that starts with no digits counts as zero. -/
theorem leadingInt_of_no_digits {piece : List Char} (h : ∀ ds, StartsWith piece ds → ds = []) :
    leadingInt piece = .ok 0 := by
  rw [leadingInt_eq, if_pos (h _ (startsWith_leadingDigits piece))]

/-- Digits within the limit are read as their number, whatever stands around them. -/
theorem leadingInt_of_digits {blanks sign ds tail : List Char}
    (hblanks : ∀ c ∈ blanks, isBlank c = true) (hsign : sign ∈ signs)
    (hds : ∀ c ∈ ds, isDigit c = true) (hne : ds ≠ []) (hlength : ds.length ≤ digitLimit)
    (htail : tail.takeWhile isDigit = []) :
    leadingInt (blanks ++ (sign ++ (ds ++ tail))) =
      .ok (signed (decide (sign = ['-'])) (ofDigits (ds.filterMap digitValue?))) := by
  rw [leadingInt_eq, leadingDigits_append hblanks hsign hds hne, htail, List.append_nil,
    if_neg hne, if_neg (Nat.not_lt.mpr hlength), splitSign_of_startsWith hblanks hsign hds hne]

/-- A piece has a number unless it starts with too long a one. -/
theorem exists_leadingInt_iff (piece : List Char) :
    (∃ n, leadingInt piece = .ok n) ↔ ¬ StartsTooLong piece := by
  rw [startsTooLong_iff, leadingInt_eq]
  by_cases hnone : leadingDigits piece = []
  · rw [if_pos hnone, hnone]
    simp
  · rw [if_neg hnone]
    by_cases hlong : digitLimit < (leadingDigits piece).length
    · simp [hlong]
    · simp [hlong]

/-- What is read from a piece can be written. -/
theorem exceedsLimit_of_leadingInt {piece : List Char} {n : Int} (h : leadingInt piece = .ok n) :
    exceedsLimit n = false := by
  rw [leadingInt_eq] at h
  split at h
  · obtain rfl := Except.ok.inj h
    exact exceedsLimit_signed false (ofDigits_lt (List.forall_mem_nil _) (Nat.zero_le digitLimit))
  · split at h
    · cases h
    · next hlength =>
      obtain rfl := Except.ok.inj h
      refine exceedsLimit_signed _ (ofDigits_lt (fun d hd => ?_) ?_)
      · obtain ⟨c, _, hc⟩ := List.mem_filterMap.mp hd
        exact digitValue_lt hc
      · rw [length_digitValues fun c => isDigit_of_mem_leadingDigits]
        exact Nat.not_lt.mp hlength

end Terms

end Typeahead
