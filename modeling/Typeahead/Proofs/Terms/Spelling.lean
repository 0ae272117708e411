import Typeahead.Proofs.Number.Written
import Typeahead.Proofs.Terms.Operands

/-!
# Lists of numbers in one text

Whole numbers may be spelled out in many ways, `Terms.Spelling`: with blanks and zeros in front,
with a sign, and with anything behind that is neither a comma nor a further digit.  Spelled out
between commas, `Terms.line`, a list of numbers is read back from its text.
-/

namespace Typeahead

namespace Terms

open Text Numeral

/-- A whole number together with a way to spell it. -/
structure Spelling where
  value : Int
  blanks : List Char
  /-- Whether a number that is not negative gets a sign. -/
  plus : Bool
  /-- The zeros in front of the digits. -/
  zeros : Nat
  tail : List Char
  blanks_blank : ∀ c ∈ blanks, isBlank c = true
  digits_le : zeros + (Nat.toDigits 10 value.natAbs).length ≤ digitLimit
  tail_comma : ',' ∉ tail
  tail_digit : ∀ c ∈ tail.head?, isDigit c = false

namespace Spelling

variable (s : Spelling)

/-- The sign of a spelled number. -/
def sign : List Char := if s.value < 0 then ['-'] else if s.plus then ['+'] else []

/-- The digits of a spelled number. -/
def digits : List Char := List.replicate s.zeros '0' ++ Nat.toDigits 10 s.value.natAbs

/-- The text of a spelled number. -/
def chars : List Char := s.blanks ++ (s.sign ++ (s.digits ++ s.tail))

theorem sign_mem : s.sign ∈ signs := by
  rw [sign, signs]
  split
  · simp
  · split
    · simp
    · simp

theorem signed_sign : signed (decide (s.sign = ['-'])) s.value.natAbs = s.value := by
  rw [sign]
  split
  · next hneg =>
    rw [decide_eq_true rfl, signed, if_pos rfl, Int.ofNat_natAbs_of_nonpos (Int.le_of_lt hneg),
      Int.neg_neg]
  · next hnonneg =>
    have hplain : (if s.plus then ['+'] else []) ≠ ['-'] := by
      split
      · decide
      · decide
    rw [decide_eq_false hplain, signed, if_neg Bool.false_ne_true]
    exact Int.natAbs_of_nonneg (Int.not_lt.mp hnonneg)

theorem ascii_of_mem_digits {c : Char} (h : c ∈ s.digits) : c.isDigit = true := by
  rcases List.mem_append.mp h with h | h
  · rw [(List.mem_replicate.mp h).2]
    rfl
  · exact ascii_of_mem_toDigits h

theorem digits_ne_nil : s.digits ≠ [] :=
  List.append_ne_nil_of_right_ne_nil _ Nat.toDigits_ne_nil

theorem ofDigits_digits : ofDigits (s.digits.filterMap digitValue?) = s.value.natAbs := by
  have hzero : digitValue? '0' = some 0 := rfl
  rw [digits, List.filterMap_append, List.filterMap_replicate_of_some hzero, ofDigits_zeros,
    ofDigits_toDigits]

/-- A spelled number is read as what it is. -/
theorem leadingInt_chars : leadingInt s.chars = .ok s.value := by
  have hlength : s.digits.length ≤ digitLimit := by
    rw [digits, List.length_append, List.length_replicate]
    exact s.digits_le
  have htail : s.tail.takeWhile isDigit = [] := by
    cases htail : s.tail with
    | nil => rfl
    | cons c cs =>
        have hc := s.tail_digit c (by rw [htail]; rfl)
        exact List.takeWhile_cons_of_neg (by simp [hc])
  rw [chars, leadingInt_of_digits s.blanks_blank s.sign_mem
    (fun c hc => isDigit_of_ascii (s.ascii_of_mem_digits hc)) s.digits_ne_nil hlength htail,
    s.ofDigits_digits, s.signed_sign]

theorem comma_notMem_chars : ',' ∉ s.chars := by
  have hblanks : ',' ∉ s.blanks := fun h => absurd (s.blanks_blank _ h) (by decide)
  have hsign : ',' ∉ s.sign := by
    rw [sign]
    split
    · decide
    · split
      · decide
      · decide
  have hdigits : ',' ∉ s.digits := fun h => absurd (s.ascii_of_mem_digits h) (by decide)
  simp [chars, hblanks, hsign, hdigits, s.tail_comma]

theorem exists_digit : ∃ c ∈ s.chars, isDigit c = true := by
  obtain ⟨c, cs, hc⟩ := List.exists_cons_of_ne_nil s.digits_ne_nil
  have hmem : c ∈ s.digits := by rw [hc]; exact List.mem_cons_self
  exact ⟨c, by simp [chars, hmem], isDigit_of_ascii (s.ascii_of_mem_digits hmem)⟩

theorem chars_ne_nil : s.chars ≠ [] := by
  obtain ⟨c, hc, _⟩ := s.exists_digit
  exact List.ne_nil_of_mem hc

end Spelling

/-- Pieces between commas, and more commas behind them. -/
def line (pieces : List (List Char)) (commas : Nat) : String :=
  String.ofList ([','].intercalate pieces ++ List.replicate commas ',')

theorem toList_line (pieces : List (List Char)) (commas : Nat) :
    (line pieces commas).toList = [','].intercalate pieces ++ List.replicate commas ',' :=
  String.toList_ofList

theorem fields_line (pieces : List (List Char)) {last : List Char} (hlast : ',' ∉ last)
    (h : ∀ p ∈ pieces, ',' ∉ p) (n : Nat) :
    fields ',' (line (pieces ++ [last]) n).toList = pieces ++ last :: List.replicate n [] := by
  rw [toList_line]
  induction pieces with
  | nil => rw [List.nil_append, List.intercalate_singleton, fields_replicate hlast, List.nil_append]
  | cons p pieces ih =>
      have hrest := ih fun q hq => h q (List.mem_cons_of_mem p hq)
      obtain ⟨q, qs, hq⟩ := List.exists_cons_of_ne_nil
        (List.append_ne_nil_of_right_ne_nil pieces (List.cons_ne_nil last []))
      rw [hq] at hrest
      rw [List.cons_append, hq, List.intercalate_cons_cons, List.append_assoc, List.append_assoc,
        List.singleton_append, fields_append_cons (h p List.mem_cons_self), hrest]
      rfl

/-- The pieces of a line are read one by one, if the last of them is not empty. -/
theorem ofText_line (pieces : List (List Char)) {last : List Char} (hlast : last ≠ [])
    (h : ∀ p ∈ pieces ++ [last], ',' ∉ p) (commas : Nat) :
    ofText (line (pieces ++ [last]) commas).toList = (pieces ++ [last]).mapM leadingInt := by
  have hcomma : ',' ∉ last := h last (List.mem_append_right _ (List.mem_singleton_self last))
  rw [ofText, fields_line pieces hcomma fun p hp => h p (List.mem_append_left _ hp),
    dropEmptyTail_append pieces hlast]

theorem ofText_commas (commas : Nat) : ofText (line [] commas).toList = .ok [] := by
  have hfields := fields_replicate (List.not_mem_nil (a := ',')) commas
  rw [List.nil_append, ← List.replicate_succ] at hfields
  rw [ofText, toList_line, List.intercalate_nil, List.nil_append, hfields, dropEmptyTail_replicate]
  rfl

/-- The characters of a line are those of its pieces and commas. -/
theorem mem_line {pieces : List (List Char)} {p : List Char} {c : Char} (hp : p ∈ pieces)
    (hc : c ∈ p) (commas : Nat) : c ∈ (line pieces commas).toList := by
  rw [toList_line]
  refine List.mem_append_left _ ?_
  induction pieces with
  | nil => cases hp
  | cons q pieces ih =>
      cases pieces with
      | nil =>
          obtain rfl := List.mem_singleton.mp hp
          simpa using hc
      | cons r pieces =>
          rw [List.intercalate_cons_cons]
          rcases List.mem_cons.mp hp with rfl | hp
          · exact List.mem_append_left _ (List.mem_append_left _ hc)
          · exact List.mem_append_right _ (ih hp)

theorem comma_mem_line (before : List (List Char)) (p q : List Char) (after : List (List Char))
    (commas : Nat) : ',' ∈ (line (before ++ p :: q :: after) commas).toList := by
  rw [toList_line]
  refine List.mem_append_left _ ?_
  induction before with
  | nil => simp [List.intercalate_cons_cons]
  | cons r before ih =>
      obtain ⟨s, rest, hrest⟩ := List.exists_cons_of_ne_nil
        (List.append_ne_nil_of_right_ne_nil before (List.cons_ne_nil p (q :: after)))
      rw [hrest] at ih
      rw [List.cons_append, hrest, List.intercalate_cons_cons]
      exact List.mem_append_right _ ih

/-- None of the letters of the words for yes and no is a digit. -/
theorem isDigit_of_mem_letters {c : Char}
    (h : c ∈ ['t', 'r', 'u', 'e', 'f', 'a', 'l', 's']) : isDigit c = false := by
  simp only [List.mem_cons, List.not_mem_nil, or_false] at h
  rcases h with rfl | rfl | rfl | rfl | rfl | rfl | rfl | rfl <;> rfl

/-- A line that ends in a spelled number is read by its pieces, unless it is a digit that says yes
or no to a field of truth values. -/
theorem ofOperand_line {pieces : List (List Char)} {s : Spelling} {ns : List Int}
    (hpieces : ∀ p ∈ pieces, ',' ∉ p) (hns : (pieces ++ [s.chars]).mapM leadingInt = .ok ns)
    {commas : Nat} {fieldType : Value} (hflag : fieldType = .text "boolean" →
      line (pieces ++ [s.chars]) commas ≠ "0" ∧ line (pieces ++ [s.chars]) commas ≠ "1")
    (allowZero : Bool) :
    ofOperand allowZero fieldType (.text (line (pieces ++ [s.chars]) commas)) =
      .ok (ofNumbers allowZero ns) := by
  obtain ⟨c, hc, hdigit⟩ := s.exists_digit
  have hmem := mem_line (List.mem_append_right pieces (List.mem_singleton_self s.chars)) hc commas
  -- there is a digit in the text, so it is no word
  have hword (word : String) (hletters : word.toList ⊆ ['t', 'r', 'u', 'e', 'f', 'a', 'l', 's']) :
      line (pieces ++ [s.chars]) commas ≠ word := by
    intro heq
    rw [heq] at hmem
    rw [isDigit_of_mem_letters (hletters hmem)] at hdigit
    cases hdigit
  have hcommas : ∀ p ∈ pieces ++ [s.chars], ',' ∉ p := by
    intro p hp
    rcases List.mem_append.mp hp with hp | hp
    · exact hpieces p hp
    · rw [List.mem_singleton.mp hp]
      exact s.comma_notMem_chars
  rw [ofOperand_text (hword "true" (by decide)) (hword "false" (by decide)) hflag,
    ofText_line pieces s.chars_ne_nil hcommas, hns]
  rfl

/-- Whether a piece starts with no number. -/
def StartsWithNone (piece : List Char) : Prop := ∀ ds, StartsWith piece ds → ds = []

theorem forall₂_leadingInt (ss : List Spelling) :
    List.Forall₂ (fun p n => leadingInt p = .ok n) (ss.map Spelling.chars)
      (ss.map Spelling.value) := by
  rw [List.forall₂_map_left_iff, List.forall₂_map_right_iff, List.forall₂_same]
  exact fun s _ => s.leadingInt_chars

theorem comma_notMem_of_mem {ss : List Spelling} {p : List Char}
    (h : p ∈ ss.map Spelling.chars) : ',' ∉ p := by
  obtain ⟨s, _, rfl⟩ := List.mem_map.mp h
  exact s.comma_notMem_chars

/-- Nothing is read from commas alone. -/
theorem ofOperand_commas (commas : Nat) (allowZero : Bool) (fieldType : Value) :
    ofOperand allowZero fieldType (.text (line [] commas)) = .ok [] := by
  have hword (c : Char) (cs : List Char) (hc : c ≠ ',') :
      line [] commas ≠ String.ofList (c :: cs) := by
    intro heq
    have hlist : List.replicate commas ',' = c :: cs := by
      rw [← String.toList_ofList (l := c :: cs), ← heq, toList_line, List.intercalate_nil,
        List.nil_append]
    have hmem : c ∈ List.replicate commas ',' := by rw [hlist]; exact List.mem_cons_self
    exact hc (List.mem_replicate.mp hmem).2
  have hflag : fieldType = .text "boolean" → line [] commas ≠ "0" ∧ line [] commas ≠ "1" :=
    fun _ => ⟨hword '0' [] (by decide), hword '1' [] (by decide)⟩
  rw [ofOperand_text (hword 't' ['r', 'u', 'e'] (by decide))
    (hword 'f' ['a', 'l', 's', 'e'] (by decide)) hflag, ofText_commas, Except.map, ofNumbers_nil]

theorem ofOperand_line_map (ss : List Spelling) (commas : Nat) {fieldType : Value}
    (hflag : fieldType = .text "boolean" → line (ss.map Spelling.chars) commas ≠ "0" ∧
      line (ss.map Spelling.chars) commas ≠ "1") (allowZero : Bool) :
    ofOperand allowZero fieldType (.text (line (ss.map Spelling.chars) commas)) =
      .ok (ofNumbers allowZero (ss.map Spelling.value)) := by
  rcases List.eq_nil_or_concat' ss with rfl | ⟨init, last, rfl⟩
  · rw [List.map_nil, List.map_nil, ofOperand_commas, ofNumbers_nil]
  · have hns := (Outcome.mapM_eq_ok_iff leadingInt _ _).mpr (forall₂_leadingInt (init ++ [last]))
    rw [List.map_append, List.map_singleton] at hns hflag ⊢
    exact ofOperand_line (fun p hp => comma_notMem_of_mem hp) hns hflag allowZero

/-- A piece that starts with no number stands for a zero. -/
theorem ofOperand_line_insert (before after : List Spelling) (hafter : after ≠ [])
    {piece : List Char} (hcomma : ',' ∉ piece) (hnone : StartsWithNone piece) (commas : Nat)
    (fieldType : Value) (allowZero : Bool) :
    ofOperand allowZero fieldType (.text
        (line (before.map Spelling.chars ++ piece :: after.map Spelling.chars) commas)) =
      .ok (ofNumbers allowZero (before.map Spelling.value ++ 0 :: after.map Spelling.value)) := by
  have hns : (before.map Spelling.chars ++ piece :: after.map Spelling.chars).mapM leadingInt =
      .ok (before.map Spelling.value ++ 0 :: after.map Spelling.value) :=
    (Outcome.mapM_eq_ok_iff leadingInt _ _).mpr (List.rel_append (forall₂_leadingInt before)
      (.cons (leadingInt_of_no_digits hnone) (forall₂_leadingInt after)))
  have hlong (word : String) (hword : ',' ∉ word.toList) :
      line (before.map Spelling.chars ++ piece :: after.map Spelling.chars) commas ≠ word := by
    obtain ⟨next, rest, rfl⟩ := List.exists_cons_of_ne_nil hafter
    intro heq
    rw [← heq] at hword
    exact hword (comma_mem_line _ piece next.chars _ commas)
  rcases List.eq_nil_or_concat' after with rfl | ⟨init, last, rfl⟩
  · exact absurd rfl hafter
  · have hpieces : ∀ p ∈ before.map Spelling.chars ++ piece :: init.map Spelling.chars,
        ',' ∉ p := by
      intro p hp
      rcases List.mem_append.mp hp with hp | hp
      · exact comma_notMem_of_mem hp
      · rcases List.mem_cons.mp hp with rfl | hp
        · exact hcomma
        · exact comma_notMem_of_mem hp
    rw [List.map_append, List.map_singleton, ← List.cons_append, ← List.append_assoc] at hns hlong ⊢
    exact ofOperand_line hpieces hns (fun _ => ⟨hlong "0" (by decide), hlong "1" (by decide)⟩)
      allowZero

/-- A list of numbers is read back from its line, with every zero when zeros are allowed and with
none otherwise.  A piece that starts with no number counts as one more zero where it stands. -/
theorem ofOperand_spelled (ss : List Spelling) (commas : Nat) (fieldType : Value) :
    ((fieldType = .text "boolean" → line (ss.map Spelling.chars) commas ≠ "0" ∧
        line (ss.map Spelling.chars) commas ≠ "1") →
      ofOperand true fieldType (.text (line (ss.map Spelling.chars) commas)) =
          .ok ((ss.map Spelling.value).map .int) ∧
        ofOperand false fieldType (.text (line (ss.map Spelling.chars) commas)) =
          .ok (((ss.map Spelling.value).filter (· != 0)).map .int)) ∧
    ∀ before after piece, ss = before ++ after → after ≠ [] → ',' ∉ piece →
      StartsWithNone piece →
      ofOperand true fieldType (.text
          (line (before.map Spelling.chars ++ piece :: after.map Spelling.chars) commas)) =
          .ok ((before.map Spelling.value ++ 0 :: after.map Spelling.value).map .int) ∧
        ofOperand false fieldType (.text
          (line (before.map Spelling.chars ++ piece :: after.map Spelling.chars) commas)) =
          .ok (((ss.map Spelling.value).filter (· != 0)).map .int) := by
  constructor
  · intro hflag
    exact ⟨ofOperand_line_map ss commas hflag true, ofOperand_line_map ss commas hflag false⟩
  · rintro before after piece rfl hafter hcomma hnone
    have hread := ofOperand_line_insert before after hafter hcomma hnone commas fieldType
    have hzeros : (before.map Spelling.value ++ 0 :: after.map Spelling.value).filter (· != 0) =
        ((before ++ after).map Spelling.value).filter (· != 0) := by
      rw [List.map_append, List.filter_append, List.filter_append,
        List.filter_cons_of_neg (by decide)]
    rw [← hzeros]
    exact ⟨hread true, hread false⟩

/-- Seven, minus three, zero and seven once more. -/
def fourNumbers : List Spelling :=
  [⟨7, [' '], false, 0, [], List.forall_mem_singleton.mpr rfl, by decide +kernel, by decide, nofun⟩,
    ⟨-3, [], false, 0, ['a', 'b', 'c'], nofun, by decide +kernel, by decide, by rintro _ ⟨⟩; rfl⟩,
    ⟨0, [], false, 0, [], nofun, by decide +kernel, by decide, nofun⟩,
    ⟨7, [], true, 2, [], nofun, by decide +kernel, by decide, nofun⟩]

theorem ofOperand_spelled_fourNumbers :
    (ofOperand true (.text "boolean") (.text " 7,-3abc,0,+007,,") =
        .ok [.int 7, .int (-3), .int 0, .int 7] ∧
      ofOperand false (.text "boolean") (.text " 7,-3abc,0,+007,,") =
        .ok [.int 7, .int (-3), .int 7]) ∧
    ofOperand true (.text "boolean") (.text " 7,x,-3abc,0,+007,,") =
        .ok [.int 7, .int 0, .int (-3), .int 0, .int 7] ∧
      ofOperand false (.text "boolean") (.text " 7,x,-3abc,0,+007,,") =
        .ok [.int 7, .int (-3), .int 7] := by
  have hline : line (fourNumbers.map Spelling.chars) 2 = " 7,-3abc,0,+007,," := by decide +kernel
  have hletter : StartsWithNone ['x'] := by
    intro ds hds
    exact List.eq_nil_of_length_eq_zero (Nat.le_zero.mp hds.length_le)
  obtain ⟨hread, hinsert⟩ := ofOperand_spelled fourNumbers 2 (.text "boolean")
  have hfour := hread fun _ => by rw [hline]; decide
  rw [hline] at hfour
  exact ⟨hfour, hinsert (fourNumbers.take 1) (fourNumbers.drop 1) ['x'] rfl (by decide) (by decide)
    hletter⟩

end Terms

end Typeahead
