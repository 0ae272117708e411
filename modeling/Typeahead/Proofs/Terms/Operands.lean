import Typeahead.Proofs.Outcome
import Typeahead.Proofs.Terms.Leading
import Typeahead.Proofs.Text.Fields

/-!
# What operands are read as

An operand is either taken as it stands, whether it includes or excludes, or it is read as numbers,
`Terms.ofOperand_cases`.  Of the numbers an inclusion keeps those that are not zero and an
exclusion keeps all, `Terms.ofNumbers`.
-/

namespace Typeahead

namespace Value

theorem areWritable_iff (vs : List Value) :
    areWritable vs = true ↔ ∀ v ∈ vs, v.isWritable = true := by
  induction vs with
  | nil => simp [areWritable]
  | cons v vs ih => simp [areWritable, ih]

theorem areWritable_texts (names : List String) : areWritable (names.map .text) = true := by
  rw [areWritable_iff]
  intro v hv
  obtain ⟨name, _, rfl⟩ := List.mem_map.mp hv
  rfl

end Value

namespace Terms

open Text Numeral

/-- A text is read when none of its pieces starts with too long a number. -/
theorem exists_ofText_iff (cs : List Char) :
    (∃ ns, ofText cs = .ok ns) ↔ ∀ piece ∈ fields ',' cs, ¬ StartsTooLong piece := by
  rw [ofText, Outcome.exists_mapM_iff]
  simp only [exists_leadingInt_iff]
  constructor
  · intro hall piece hpiece
    by_cases hempty : piece = []
    · rw [startsTooLong_iff, hempty]
      simp [leadingDigits, splitSign]
    · exact hall piece (mem_dropEmptyTail hempty hpiece)
  · intro hall piece hpiece
    exact hall piece (mem_of_mem_dropEmptyTail hpiece)

theorem exceedsLimit_of_ofText {cs : List Char} {ns : List Int} (h : ofText cs = .ok ns) :
    ∀ n ∈ ns, exceedsLimit n = false :=
  (Outcome.forall_mem_of_mapM h _).mpr fun _ _ _ => exceedsLimit_of_leadingInt

/-- The terms of numbers; inclusions leave out zeros. -/
def ofNumbers (allowZero : Bool) (ns : List Int) : List Value :=
  (if allowZero then ns else ns.filter (· != 0)).map .int

@[simp] theorem ofNumbers_nil (allowZero : Bool) : ofNumbers allowZero [] = [] := by
  cases allowZero with
  | false => rfl
  | true => rfl

@[simp] theorem ofNumbers_true (ns : List Int) : ofNumbers true ns = ns.map .int := rfl

@[simp] theorem ofNumbers_false (ns : List Int) :
    ofNumbers false ns = (ns.filter (· != 0)).map .int := rfl

theorem areWritable_ofNumbers {ns : List Int} (h : ∀ n ∈ ns, exceedsLimit n = false)
    (allowZero : Bool) : Value.areWritable (ofNumbers allowZero ns) = true := by
  rw [Value.areWritable_iff]
  intro v hv
  obtain ⟨n, hn, rfl⟩ := List.mem_map.mp hv
  have hmem : n ∈ ns := by
    split at hn
    · exact hn
    · exact (List.mem_filter.mp hn).1
  rw [Value.isWritable, h n hmem]
  rfl

/-- What says neither yes nor no is read as text. -/
theorem ofScalar_eq (allowZero : Bool) {isBoolean : Bool} {v : Value}
    (hyes : saysYes isBoolean v = false) (hno : saysNo isBoolean v = false) :
    ofScalar allowZero isBoolean v =
      (v.plain? >>= fun s => ofText s.toList).map (ofNumbers allowZero) := by
  rw [ofScalar, hyes, hno]
  cases hplain : v.plain? with
  | error e => rfl
  | ok s =>
      cases hread : ofText s.toList with
      | error e => simp [Bind.bind, Except.bind, Except.map, hread]
      | ok ns => simp [Bind.bind, Except.bind, Except.map, Pure.pure, Except.pure, hread, ofNumbers]

/-- Whether an operand stands for itself: a list, a tuple or a truth value. -/
def IsWhole (v : Value) : Prop :=
  (∃ items, v = .list items ∨ v = .tuple items) ∨ ∃ b, v = .bool b

theorem ofOperand_of_isWhole {v : Value} (h : IsWhole v) :
    ∃ ts, ∀ allowZero fieldType, ofOperand allowZero fieldType v = .ok ts := by
  rcases h with ⟨items, rfl | rfl⟩ | ⟨b, rfl⟩
  · exact ⟨items, fun _ _ => rfl⟩
  · exact ⟨items, fun _ _ => rfl⟩
  · exact ⟨[.bool b], fun _ _ => rfl⟩

theorem ofOperand_of_not_isWhole {v : Value} (h : ¬ IsWhole v) (hnull : v ≠ .null)
    (allowZero : Bool) (fieldType : Value) : ofOperand allowZero fieldType v =
      if v.same (.text "") then .ok []
      else ofScalar allowZero (fieldType.same (.text "boolean")) v := by
  cases v with
  | null => exact absurd rfl hnull
  | list items => exact absurd (Or.inl ⟨items, Or.inl rfl⟩) h
  | tuple items => exact absurd (Or.inl ⟨items, Or.inr rfl⟩) h
  | bool b => exact absurd (Or.inr ⟨b, rfl⟩) h
  | _ => rfl

/-- The two ways that an operand is read.  Whether zeros are allowed plays a part only where it is
read as numbers, and these can be written down. -/
theorem ofOperand_cases (fieldType v : Value) :
    (∃ ts, (IsWhole v ∨ ∃ b, ts = [.bool b]) ∧
        ∀ allowZero, ofOperand allowZero fieldType v = .ok ts) ∨
      ¬ IsWhole v ∧ ∃ x : Except Failure (List Int),
        (∀ ns, x = .ok ns → ∀ n ∈ ns, exceedsLimit n = false) ∧
          ∀ allowZero, ofOperand allowZero fieldType v = x.map (ofNumbers allowZero) := by
  by_cases hwhole : IsWhole v
  · obtain ⟨ts, hts⟩ := ofOperand_of_isWhole hwhole
    exact Or.inl ⟨ts, Or.inl hwhole, fun allowZero => hts allowZero fieldType⟩
  have hnothing : ∀ ns, (Except.ok [] : Except Failure (List Int)) = .ok ns →
      ∀ n ∈ ns, exceedsLimit n = false := by
    rintro _ ⟨⟩ n hn
    cases hn
  by_cases hnull : v = .null
  · refine Or.inr ⟨hwhole, .ok [], hnothing, fun allowZero => ?_⟩
    rw [hnull, Except.map, ofNumbers_nil]
    rfl
  have hread := fun allowZero => ofOperand_of_not_isWhole hwhole hnull allowZero fieldType
  by_cases hempty : v.same (.text "") = true
  · refine Or.inr ⟨hwhole, .ok [], hnothing, fun allowZero => ?_⟩
    rw [hread, if_pos hempty, Except.map, ofNumbers_nil]
  cases hyes : saysYes (fieldType.same (.text "boolean")) v with
  | true =>
      refine Or.inl ⟨[.bool true], Or.inr ⟨true, rfl⟩, fun allowZero => ?_⟩
      rw [hread, if_neg hempty, ofScalar, hyes, if_pos rfl]
  | false =>
      cases hno : saysNo (fieldType.same (.text "boolean")) v with
      | true =>
          refine Or.inl ⟨[.bool false], Or.inr ⟨false, rfl⟩, fun allowZero => ?_⟩
          rw [hread, if_neg hempty, ofScalar, hyes, hno, if_neg Bool.false_ne_true, if_pos rfl]
      | false =>
          refine Or.inr ⟨hwhole, v.plain? >>= fun s => ofText s.toList, ?_, fun allowZero => ?_⟩
          · intro ns hns
            obtain ⟨s, _, hs⟩ := (Outcome.bind_eq_ok_iff _ _ _).mp hns
            exact exceedsLimit_of_ofText hs
          · rw [hread, if_neg hempty, ofScalar_eq allowZero hyes hno]

/-- A text that is no word for yes or no is read as numbers, and so are the digits for yes and no
unless the field holds truth values. -/
theorem ofOperand_text {s : String} (htrue : s ≠ "true") (hfalse : s ≠ "false") {fieldType : Value}
    (hflag : fieldType = .text "boolean" → s ≠ "0" ∧ s ≠ "1") (allowZero : Bool) :
    ofOperand allowZero fieldType (.text s) = (ofText s.toList).map (ofNumbers allowZero) := by
  have hread := ofOperand_of_not_isWhole (show ¬ IsWhole (.text s) by simp [IsWhole])
    (by simp) allowZero fieldType
  by_cases hempty : s = ""
  · have hnone : ofText "".toList = .ok [] := rfl
    rw [hread, hempty, if_pos (by simp [Value.same]), hnone, Except.map, ofNumbers_nil]
  have hflags : fieldType.same (.text "boolean") = true → s ≠ "0" ∧ s ≠ "1" := by
    intro hsame
    cases fieldType with
    | text t => exact hflag (by simpa [Value.same] using hsame)
    | _ => simp [Value.same] at hsame
  have hyes : saysYes (fieldType.same (.text "boolean")) (.text s) = false := by
    cases hboolean : fieldType.same (.text "boolean") with
    | false => simp [saysYes, Value.same, htrue]
    | true => simp [saysYes, Value.same, htrue, (hflags hboolean).2]
  have hno : saysNo (fieldType.same (.text "boolean")) (.text s) = false := by
    cases hboolean : fieldType.same (.text "boolean") with
    | false => simp [saysNo, Value.same, hfalse]
    | true => simp [saysNo, Value.same, hfalse, (hflags hboolean).1]
  rw [hread, if_neg (by simpa [Value.same] using hempty), ofScalar_eq allowZero hyes hno]
  rfl

end Terms

end Typeahead
