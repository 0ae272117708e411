import Mathlib.Data.List.TakeWhile
import Typeahead.Number.Numeral

/-!
# Two readers of numerals

What `Numeral.readStrictInt` reads without a fraction, `Numeral.readInt` reads as the same
number.  A fraction of zeros is read by the strict reader only.
-/

namespace Typeahead

namespace Text

/-- No decimal digit is blank. -/
theorem digitValue_of_isBlank {c : Char} (h : isBlank c = true) : digitValue? c = none := by
  have hruns : ∀ z ∈ digitZeros, ∀ run ∈ (0x1C, 0x1F) :: spaceRanges,
      run.2 < z ∨ z + 10 ≤ run.1 := by
    decide
  obtain ⟨run, hrun, hlow, hhigh⟩ : ∃ run ∈ (0x1C, 0x1F) :: spaceRanges,
      run.1 ≤ c.toNat ∧ c.toNat ≤ run.2 := by
    rcases Bool.or_eq_true_iff.mp h with hspace | hseparator
    · obtain ⟨run, hrun, hin⟩ := List.any_eq_true.mp hspace
      exact ⟨run, List.mem_cons_of_mem _ hrun, by simpa using hin⟩
    · obtain ⟨run, hrun, hin⟩ := List.any_eq_true.mp hseparator
      exact ⟨run, List.mem_cons.mpr (Or.inl (List.mem_singleton.mp hrun)), by simpa using hin⟩
  have hnone : digitZeros.find? (fun z => decide (z ≤ c.toNat) && decide (c.toNat < z + 10)) =
      none := by
    simp only [List.find?_eq_none, Bool.and_eq_true, decide_eq_true_eq, not_and]
    intro z hz hle
    have := hruns z hz run hrun
    omega
  rw [digitValue?, hnone, Option.map_none]

end Text

namespace Numeral

section Digits

variable {digit? typed? : Char → Option Nat} {c : Char} {cs : List Char} {ds : List Nat}

theorem digits_eq_some
    (h : (do
      let d ← digit? c
      let ds ← separatedDigits? digit? cs
      return d :: ds) = some ds) :
    ∃ d rest, digit? c = some d ∧ separatedDigits? digit? cs = some rest ∧ ds = d :: rest := by
  obtain ⟨d, hd, h⟩ := Option.bind_eq_some_iff.mp h
  obtain ⟨rest, hrest, h⟩ := Option.bind_eq_some_iff.mp h
  exact ⟨d, rest, hd, hrest, (Option.some.inj h).symm⟩

/-- There are digits, with nothing but underscores between them. -/
structure Separated (digit? : Char → Option Nat) (cs : List Char) (ds : List Nat) : Prop where
  digits : ∀ c ∈ cs, c = '_' ∨ (digit? c).isSome = true
  exists_digit : ∃ c ∈ cs, (digit? c).isSome = true
  length_le : ds.length ≤ cs.length

theorem separated_of_separatedDigits (h : separatedDigits? digit? cs = some ds) :
    Separated digit? cs ds := by
  fun_induction separatedDigits? digit? cs generalizing ds with
  | case1 => cases h
  | case2 c =>
      obtain ⟨d, hd, rfl⟩ := Option.map_eq_some_iff.mp h
      have hc : (digit? c).isSome = true := by rw [hd]; rfl
      refine ⟨fun a ha => Or.inr ?_, ⟨c, List.mem_singleton_self c, hc⟩, Nat.le_refl 1⟩
      rwa [List.mem_singleton.mp ha]
  | case3 c cs ih =>
      obtain ⟨d, rest, hd, hrest, rfl⟩ := digits_eq_some h
      have hc : (digit? c).isSome = true := by rw [hd]; rfl
      refine ⟨fun a ha => ?_, ⟨c, List.mem_cons_self, hc⟩, ?_⟩
      · rcases List.mem_cons.mp ha with rfl | ha
        · exact Or.inr hc
        · rcases List.mem_cons.mp ha with rfl | ha
          · exact Or.inl rfl
          · exact (ih hrest).digits a ha
      · exact Nat.succ_le_succ (Nat.le_succ_of_le (ih hrest).length_le)
  | case4 c cs _ _ ih =>
      obtain ⟨d, rest, hd, hrest, rfl⟩ := digits_eq_some h
      have hc : (digit? c).isSome = true := by rw [hd]; rfl
      refine ⟨fun a ha => ?_, ⟨c, List.mem_cons_self, hc⟩, Nat.succ_le_succ (ih hrest).length_le⟩
      rcases List.mem_cons.mp ha with rfl | ha
      · exact Or.inr hc
      · exact (ih hrest).digits a ha

/-- A reader that knows more digits reads the same. -/
theorem separatedDigits_of_le (hle : ∀ c d, digit? c = some d → typed? c = some d)
    (h : separatedDigits? digit? cs = some ds) : separatedDigits? typed? cs = some ds := by
  fun_induction separatedDigits? digit? cs generalizing ds with
  | case1 => cases h
  | case2 c =>
      obtain ⟨d, hd, rfl⟩ := Option.map_eq_some_iff.mp h
      rw [separatedDigits?, hle c d hd]
      rfl
  | case3 c cs ih =>
      obtain ⟨d, rest, hd, hrest, rfl⟩ := digits_eq_some h
      rw [separatedDigits?, hle c d hd, ih hrest]
      rfl
  | case4 c cs hne hunderscore ih =>
      obtain ⟨d, rest, hd, hrest, rfl⟩ := digits_eq_some h
      rw [separatedDigits?, hle c d hd, ih hrest]
      · rfl
      · exact hne
      · exact hunderscore

end Digits

/-- The digits that are known to checked fields count as much for everyone. -/
theorem digitValue_of_asciiDigit {c : Char} {d : Nat} (h : asciiDigit? c = some d) :
    Text.digitValue? c = some d := by
  rw [asciiDigit?] at h
  split at h
  · next hrange =>
    have hlow : 48 ≤ c.toNat := hrange.1
    have hhigh : c.toNat < 48 + 10 := Nat.lt_succ_of_le hrange.2
    have hzero : Text.digitZeros.find?
        (fun z => decide (z ≤ c.toNat) && decide (c.toNat < z + 10)) = some 48 := by
      rw [Text.digitZeros, List.find?_cons, decide_eq_true hlow, decide_eq_true hhigh]
      rfl
    rw [Text.digitValue?, hzero]
    exact h
  · cases h

theorem isBlank_of_asciiDigit {c : Char} (h : (asciiDigit? c).isSome = true) :
    Text.isBlank c = false := by
  rw [asciiDigit?] at h
  split at h
  · next hrange =>
    have hlow : 48 ≤ c.toNat := hrange.1
    have hhigh : c.toNat ≤ 57 := hrange.2
    simp only [Text.isBlank, Text.isSpace, Text.inRanges, Text.spaceRanges, List.any_cons,
      List.any_nil, Bool.or_false, Bool.or_eq_false_iff, Bool.and_eq_false_iff,
      decide_eq_false_iff_not]
    omega
  · cases h

theorem mem_dropWhile {drop : Char → Bool} {c : Char} (hc : drop c = false) {cs : List Char}
    (h : c ∈ cs) : c ∈ cs.dropWhile drop := by
  induction cs with
  | nil => cases h
  | cons a cs ih =>
      by_cases ha : drop a = true
      · rw [List.dropWhile_cons_of_pos ha]
        rcases List.mem_cons.mp h with rfl | h
        · rw [hc] at ha
          cases ha
        · exact ih h
      · rw [List.dropWhile_cons_of_neg ha]
        exact h

/-- What is not cut from the ends stays. -/
theorem mem_trimWith {drop : Char → Bool} {c : Char} (hc : drop c = false) {cs : List Char}
    (h : c ∈ cs) : c ∈ Text.trimWith drop cs :=
  List.mem_reverse.mpr (mem_dropWhile hc (List.mem_reverse.mpr (mem_dropWhile hc h)))

theorem sublist_trimWith (drop : Char → Bool) (cs : List Char) :
    (Text.trimWith drop cs).Sublist cs := by
  have hinner := ((cs.dropWhile drop).reverse.dropWhile_sublist drop).reverse
  rw [List.reverse_reverse] at hinner
  exact hinner.trans (cs.dropWhile_sublist drop)

theorem sublist_splitSign (cs : List Char) : (splitSign cs).2.Sublist cs := by
  unfold splitSign
  split
  · exact List.sublist_cons_self _ _
  · exact List.sublist_cons_self _ _
  · exact List.Sublist.refl _

theorem mem_splitSign {c : Char} (hminus : c ≠ '-') (hplus : c ≠ '+') {cs : List Char}
    (h : c ∈ cs) : c ∈ (splitSign cs).2 := by
  unfold splitSign
  split
  · exact (List.mem_cons.mp h).resolve_left hminus
  · exact (List.mem_cons.mp h).resolve_left hplus
  · exact h

/-- The characters of a numeral behind its sign. -/
def behindSign (s : String) : List Char :=
  (splitSign (Text.trimWith Text.isSpace s.toList)).2

theorem sublist_behindSign (s : String) : (behindSign s).Sublist s.toList :=
  (sublist_splitSign _).trans (sublist_trimWith _ _)

theorem mem_behindSign_point {s : String} (h : '.' ∈ s.toList) : '.' ∈ behindSign s :=
  mem_splitSign (by decide) (by decide) (mem_trimWith (by decide) h)

theorem dropZeroFraction_of_notMem {cs : List Char} (h : '.' ∉ cs) : dropZeroFraction cs = cs := by
  have hnone : cs.dropWhile (· != '.') = [] := by
    refine List.dropWhile_eq_nil_iff.mpr fun c hc => ?_
    exact bne_iff_ne.mpr fun heq => h (heq ▸ hc)
  rw [dropZeroFraction, hnone]

theorem sublist_dropZeroFraction (cs : List Char) : (dropZeroFraction cs).Sublist cs := by
  unfold dropZeroFraction
  dsimp only
  split
  · split
    · exact List.takeWhile_sublist _
    · exact List.Sublist.refl _
  · exact List.Sublist.refl _

/-- Every character takes a byte at least. -/
theorem length_le_utf8ByteSize (s : String) : s.toList.length ≤ s.utf8ByteSize := by
  have hencode (cs : List Char) : cs.length ≤ cs.utf8Encode.size := by
    induction cs with
    | nil => exact Nat.zero_le _
    | cons c cs ih =>
        have hpos : 0 < [c].utf8Encode.size := by
          rw [← String.toByteArray_ofList, String.size_toByteArray, ← String.singleton_eq_ofList,
            String.utf8ByteSize_singleton]
          exact c.utf8Size_pos
        rw [List.utf8Encode_cons, ByteArray.size_append, List.length_cons, Nat.add_comm]
        exact Nat.add_le_add hpos ih
  rw [← String.size_toByteArray, ← String.utf8Encode_toList]
  exact hencode _

/-- What the strict reader has read. -/
theorem readStrictInt_eq_ok {s : String} {n : Int} (h : readStrictInt s = .ok n) : ∃ ds,
    separatedDigits? asciiDigit? (dropZeroFraction (behindSign s)) = some ds ∧
      n = signed (splitSign (Text.trimWith Text.isSpace s.toList)).1 (Text.ofDigits ds) ∧
      s.utf8ByteSize ≤ digitLimit := by
  rw [readStrictInt] at h
  split at h
  · cases h
  · next hlimit =>
    dsimp only at h
    split at h
    · cases h
    · next ds hds => exact ⟨ds, hds, (Except.ok.inj h).symm, Nat.le_of_not_lt hlimit⟩

theorem readInt_eq (s : String) : readInt s =
    match separatedDigits? Text.digitValue? (behindSign s) with
    | none => .error .malformed
    | some ds =>
        if digitLimit < ds.length then .error (.tooLong ds.length)
        else .ok (signed (splitSign (Text.trimWith Text.isSpace s.toList)).1 (Text.ofDigits ds)) :=
  rfl

/-- Without a fraction both readers read the same number. -/
theorem readInt_of_readStrictInt {s : String} {n : Int} (h : readStrictInt s = .ok n)
    (hpoint : '.' ∉ s.toList) : readInt s = .ok n := by
  obtain ⟨ds, hds, rfl, hlimit⟩ := readStrictInt_eq_ok h
  rw [dropZeroFraction_of_notMem fun hmem => hpoint ((sublist_behindSign s).subset hmem)] at hds
  have hlength : ds.length ≤ digitLimit := by
    refine Nat.le_trans (separated_of_separatedDigits hds).length_le ?_
    refine Nat.le_trans (sublist_behindSign s).length_le ?_
    exact Nat.le_trans (length_le_utf8ByteSize s) hlimit
  have hread := separatedDigits_of_le (fun c d => digitValue_of_asciiDigit) hds
  rw [readInt_eq, hread]
  exact if_neg (Nat.not_lt.mpr hlength)

/-- No fraction is read by the other reader. -/
theorem readInt_of_point {s : String} (hpoint : '.' ∈ s.toList) :
    readInt s = .error .malformed := by
  have hnone : separatedDigits? Text.digitValue? (behindSign s) = none := by
    rw [Option.eq_none_iff_forall_ne_some]
    intro ds hds
    rcases (separated_of_separatedDigits hds).digits _ (mem_behindSign_point hpoint) with h | h
    · cases h
    · exact absurd h (by decide)
  rw [readInt_eq, hnone]

/-- A numeral is not blank. -/
theorem notBlank_of_readStrictInt {s : String} {n : Int} (h : readStrictInt s = .ok n) :
    Text.isBlankText s = false := by
  obtain ⟨ds, hds, _, _⟩ := readStrictInt_eq_ok h
  obtain ⟨c, hc, hdigit⟩ := (separated_of_separatedDigits hds).exists_digit
  have hmem := ((sublist_dropZeroFraction _).trans (sublist_behindSign s)).subset hc
  have hblank : Text.isBlank c = false := isBlank_of_asciiDigit hdigit
  refine Bool.eq_false_iff.mpr fun hall => ?_
  rw [List.all_eq_true.mp hall c hmem] at hblank
  cases hblank

end Numeral

end Typeahead
