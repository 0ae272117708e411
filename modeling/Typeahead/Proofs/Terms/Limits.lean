import Typeahead.Proofs.Number.Written
import Typeahead.Proofs.Terms.Operands

/-!
# Operands that are too long

Single values and lists of them, `Value.IsPlain`, are what filters are given.  Such an operand has
terms that can be written down unless a number in it has more digits than can be read or written,
`Terms.TooLong`.  No other operand is refused.
-/

namespace Typeahead

namespace Value

/-- Whether a value is a single one that a filter can be given. -/
def IsSingle : Value → Prop
  | .null | .bool _ | .int _ | .float _ | .text _ => True
  | _ => False

/-- Whether a value is a single one, or a list or tuple of single ones. -/
def IsPlain (v : Value) : Prop :=
  v.IsSingle ∨ ∃ items, v.items? = some items ∧ ∀ item ∈ items, item.IsSingle

/-- Of single values, only whole numbers can be too long. -/
theorem IsSingle.isWritable_iff {v : Value} (h : v.IsSingle) :
    v.isWritable = true ↔ ∀ n, v = .int n → Numeral.exceedsLimit n = false := by
  cases v with
  | int n => simp [isWritable]
  | null | bool _ | float _ | text _ => simp [isWritable]
  | _ => cases h

end Value

namespace Terms

open Text Numeral

/-- A short piece does not start with too long a number. -/
theorem not_startsTooLong_of_length_le {piece : List Char} (h : piece.length ≤ digitLimit) :
    ¬ StartsTooLong piece := by
  rintro ⟨ds, ⟨blanks, sign, tail, rfl, _⟩, hlong⟩
  simp only [List.length_append] at h
  omega

/-- What stands in front of a character that is no part of a number bounds its digits. -/
theorem StartsWith.length_le_of_stop {front back ds : List Char} {stop : Char}
    (h : StartsWith (front ++ stop :: back) ds) (hblank : isBlank stop = false)
    (hsign : ∀ sign ∈ signs, stop ∉ sign) (hdigit : isDigit stop = false) :
    ds.length ≤ front.length := by
  obtain ⟨blanks, sign, tail, heq, hblanks, hmem, hds⟩ := h
  have hstop : stop ∉ blanks ++ (sign ++ ds) := by
    simp only [List.mem_append, not_or]
    refine ⟨fun hin => ?_, hsign sign hmem, fun hin => ?_⟩
    · rw [hblanks stop hin] at hblank
      cases hblank
    · rw [hds stop hin] at hdigit
      cases hdigit
  rw [← List.append_assoc sign, ← List.append_assoc] at heq
  rcases List.append_eq_append_iff.mp heq with ⟨more, hmore, hrest⟩ | ⟨more, hmore, _⟩
  · cases more with
    | nil =>
        rw [List.append_nil] at hmore
        rw [← hmore, List.length_append, List.length_append]
        omega
    | cons c more =>
        rw [hmore, (List.cons.inj hrest).1] at hstop
        exact absurd (List.mem_append_right front List.mem_cons_self) hstop
  · rw [hmore, List.length_append, List.length_append, List.length_append]
    omega

/-- A whole number that can be written can be read again. -/
theorem not_startsTooLong_toString {n : Int} (h : exceedsLimit n = false) :
    ¬ StartsTooLong (toString n).toList := by
  have hsign : (if n < 0 then ['-'] else []) ∈ signs := by
    split
    · simp [signs]
    · simp [signs]
  have hdigits : ∀ c ∈ Nat.toDigits 10 n.natAbs, isDigit c = true := fun c hc =>
    isDigit_of_ascii (ascii_of_mem_toDigits hc)
  have hlead := leadingDigits_append (List.forall_mem_nil _) hsign hdigits Nat.toDigits_ne_nil []
  rw [List.nil_append, List.append_nil, List.takeWhile_nil, List.append_nil] at hlead
  rw [startsTooLong_iff, toList_toString, hlead, Nat.not_lt]
  rw [exceedsLimit, decide_eq_false_iff_not, Nat.not_le] at h
  exact length_toDigits_le (by decide) h

/-- Fractions are never too long. -/
theorem not_startsTooLong_float (x : Binary64) :
    ¬ StartsTooLong (Value.floatStyle.text x).toList := by
  cases x with
  | nan => exact not_startsTooLong_of_length_le (by decide)
  | infinite negative =>
      cases negative with
      | false => exact not_startsTooLong_of_length_le (by decide)
      | true => exact not_startsTooLong_of_length_le (by decide)
  | finite negative m e =>
      obtain ⟨front, stop, back, heq, hstop, hlength⟩ := Value.floatStyle.magnitude_eq m e
      rintro ⟨ds, hds, hlong⟩
      rw [FloatStyle.text, String.toList_ofList, heq, ← List.append_assoc] at hds
      have hle : ds.length ≤ ((if negative then ['-'] else []) ++ front).length := by
        rcases hstop with rfl | rfl
        · exact hds.length_le_of_stop rfl (by decide) rfl
        · exact hds.length_le_of_stop rfl (by decide) rfl
      have hsign : (if negative then ['-'] else []).length ≤ 1 := by
        split
        · exact Nat.le_refl 1
        · exact Nat.zero_le 1
      have hfew : max 1 Value.floatStyle.greatestPoint = 16 := rfl
      have hlimit : digitLimit = 4300 := rfl
      rw [List.length_append] at hle
      omega

/-- Whether a number in an operand has more digits than can be read or written. -/
def TooLong : Value → Prop
  | .int n => exceedsLimit n = true
  | .text s => ∃ piece ∈ fields ',' s.toList, StartsTooLong piece
  | .list items => ∃ n, .int n ∈ items ∧ exceedsLimit n = true
  | .tuple items => ∃ n, .int n ∈ items ∧ exceedsLimit n = true
  | _ => False

theorem exists_map_plain_iff (v : Value) (allowZero : Bool) :
    (∃ ts, (v.plain? >>= fun s => ofText s.toList).map (ofNumbers allowZero) = .ok ts) ↔
      v.isWritable = true ∧ ∀ piece ∈ fields ',' v.plain.toList, ¬ StartsTooLong piece := by
  rw [← exists_ofText_iff, Value.plain?]
  split
  · next hwritable =>
    cases hread : ofText v.plain.toList with
    | error e => simp [Bind.bind, Except.bind, Except.map, hread]
    | ok ns => simp [Bind.bind, Except.bind, Except.map, hread, hwritable]
  · next hwritable => simp [Bind.bind, Except.bind, Except.map, hwritable]

/-- An operand that says nothing, yes or no has terms; any other has them when its text is read. -/
theorem exists_ofOperand_of_not_isWhole {v : Value} (h : ¬ IsWhole v) (hnull : v ≠ .null)
    (allowZero : Bool) (fieldType : Value) :
    (∃ ts, ofOperand allowZero fieldType v = .ok ts) ↔
      (v.same (.text "") = true ∨ saysYes (fieldType.same (.text "boolean")) v = true ∨
          saysNo (fieldType.same (.text "boolean")) v = true) ∨
        v.isWritable = true ∧ ∀ piece ∈ fields ',' v.plain.toList, ¬ StartsTooLong piece := by
  rw [ofOperand_of_not_isWhole h hnull]
  by_cases hempty : v.same (.text "") = true
  · simp [hempty]
  rw [if_neg hempty]
  cases hyes : saysYes (fieldType.same (.text "boolean")) v with
  | true => simp [ofScalar, hyes]
  | false =>
      cases hno : saysNo (fieldType.same (.text "boolean")) v with
      | true => simp [ofScalar, hyes, hno]
      | false =>
          rw [ofScalar_eq allowZero hyes hno, exists_map_plain_iff]
          simp [hempty]

/-- Short texts are read. -/
theorem not_tooLong_of_length_le {s : String} (h : s.toList.length ≤ digitLimit) :
    ¬ TooLong (.text s) := by
  rintro ⟨piece, hpiece, hlong⟩
  exact not_startsTooLong_of_length_le (Nat.le_trans (length_le_of_mem_fields hpiece) h) hlong

/-- What says nothing, yes or no is not too long. -/
theorem not_tooLong_of_said {isBoolean : Bool} {v : Value} (hv : v.IsSingle)
    (h : v.same (.text "") = true ∨ saysYes isBoolean v = true ∨ saysNo isBoolean v = true) :
    ¬ TooLong v := by
  cases v with
  | text s =>
      have hword : s ∈ ["", "true", "1", "false", "0"] := by
        simp only [saysYes, saysNo, Value.same, Bool.or_eq_true, Bool.and_eq_true, beq_iff_eq] at h
        simp only [List.mem_cons, List.not_mem_nil, or_false]
        tauto
      have hshort : ∀ word ∈ ["", "true", "1", "false", "0"], word.toList.length ≤ digitLimit := by
        decide
      exact not_tooLong_of_length_le (hshort s hword)
  | int n =>
      have hflag : n ∈ [1, 0] := by
        simp only [saysYes, saysNo, Value.same, Bool.or_eq_true, Bool.and_eq_true, beq_iff_eq] at h
        simp only [List.mem_cons, List.not_mem_nil, or_false]
        tauto
      have hshort : ∀ m ∈ [1, 0], exceedsLimit m = false := by decide +kernel
      rw [TooLong, hshort n hflag]
      exact Bool.false_ne_true
  | null | bool _ | float _ => exact id
  | _ => cases hv

/-- The text of a number can be read unless it is too long. -/
theorem forall_fields_iff {v : Value} (hv : v.IsSingle) (hwhole : ¬ IsWhole v) (hnull : v ≠ .null) :
    (v.isWritable = true ∧ ∀ piece ∈ fields ',' v.plain.toList, ¬ StartsTooLong piece) ↔
      ¬ TooLong v := by
  have hone {piece : List Char} (hcomma : ',' ∉ piece) :
      (∀ p ∈ fields ',' piece, ¬ StartsTooLong p) ↔ ¬ StartsTooLong piece := by
    rw [fields_of_notMem hcomma, List.forall_mem_singleton]
  cases v with
  | text s => simp [Value.isWritable, Value.plain, TooLong]
  | int n =>
      have hplain : (Value.int n).plain = toString n := rfl
      have hcomma : ',' ∉ (toString n).toList := by
        rw [toList_toString, List.mem_append, not_or]
        refine ⟨?_, comma_notMem_toDigits _⟩
        split
        · decide
        · exact List.not_mem_nil
      rw [hplain, hone hcomma, TooLong, Value.isWritable]
      constructor
      · rintro ⟨hwritable, _⟩
        simpa using hwritable
      · intro hshort
        rw [Bool.not_eq_true] at hshort
        exact ⟨by rw [hshort]; rfl, not_startsTooLong_toString hshort⟩
  | float x =>
      have hplain : (Value.float x).plain = Value.floatStyle.text x := rfl
      rw [hplain, hone (Value.floatStyle.comma_notMem_text x)]
      exact ⟨fun _ => id, fun _ => ⟨rfl, not_startsTooLong_float x⟩⟩
  | null => exact absurd rfl hnull
  | bool b => exact absurd (Or.inr ⟨b, rfl⟩) hwhole
  | _ => cases hv

/-- A single value has terms unless it is too long. -/
theorem exists_ofOperand_single_iff (allowZero : Bool) (fieldType : Value) {v : Value}
    (hv : v.IsSingle) : (∃ ts, ofOperand allowZero fieldType v = .ok ts) ↔ ¬ TooLong v := by
  by_cases hwhole : IsWhole v
  · rcases hwhole with ⟨items, rfl | rfl⟩ | ⟨b, rfl⟩
    · cases hv
    · cases hv
    · exact ⟨fun _ => id, fun _ => ⟨[.bool b], rfl⟩⟩
  by_cases hnull : v = .null
  · rw [hnull]
    exact ⟨fun _ => id, fun _ => ⟨[], rfl⟩⟩
  rw [exists_ofOperand_of_not_isWhole hwhole hnull, forall_fields_iff hv hwhole hnull]
  exact or_iff_right_of_imp (not_tooLong_of_said hv)

/-- The terms of a single value can be written down. -/
theorem areWritable_of_isSingle {allowZero : Bool} {fieldType v : Value} (hv : v.IsSingle)
    {ts : List Value} (h : ofOperand allowZero fieldType v = .ok ts) :
    Value.areWritable ts = true := by
  rcases ofOperand_cases fieldType v with ⟨ts', hwhole, hts⟩ | ⟨_, x, hshort, hx⟩
  · obtain rfl := Except.ok.inj ((hts allowZero).symm.trans h)
    rcases hwhole with (⟨items, rfl | rfl⟩ | ⟨b, rfl⟩) | ⟨b, rfl⟩
    · cases hv
    · cases hv
    · obtain rfl := Except.ok.inj h
      rfl
    · rfl
  · rw [hx] at h
    cases x with
    | error e => cases h
    | ok ns =>
        obtain rfl := Except.ok.inj h
        exact areWritable_ofNumbers (hshort ns rfl) allowZero

/-- Lists and tuples stand for their items, whatever these are. -/
theorem ofOperand_of_items {v : Value} {items : List Value} (h : v.items? = some items)
    (allowZero : Bool) (fieldType : Value) : ofOperand allowZero fieldType v = .ok items := by
  cases v with
  | list _ | tuple _ =>
      obtain rfl := Option.some.inj h
      rfl
  | _ => cases h

theorem areWritable_items_iff {v : Value} {items : List Value} (h : v.items? = some items)
    (hsingle : ∀ item ∈ items, item.IsSingle) : Value.areWritable items = true ↔ ¬ TooLong v := by
  have hiff : Value.areWritable items = true ↔ ¬ ∃ n, .int n ∈ items ∧ exceedsLimit n = true := by
    rw [Value.areWritable_iff]
    constructor
    · rintro hall ⟨n, hn, hlong⟩
      have hwritable := ((hsingle _ hn).isWritable_iff.mp (hall _ hn)) n rfl
      rw [hwritable] at hlong
      cases hlong
    · intro hnone item hitem
      refine (hsingle item hitem).isWritable_iff.mpr fun n hn => ?_
      rw [← Bool.not_eq_true]
      exact fun hlong => hnone ⟨n, hn ▸ hitem, hlong⟩
  cases v with
  | list _ | tuple _ =>
      obtain rfl := Option.some.inj h
      exact hiff
  | _ => cases h

/-- A plain operand has terms unless it is a single value that is too long. -/
theorem exists_ofOperand_iff (allowZero : Bool) (fieldType : Value) {v : Value} (hv : v.IsPlain) :
    (∃ ts, ofOperand allowZero fieldType v = .ok ts) ↔ (v.IsSingle → ¬ TooLong v) := by
  rcases hv with hv | ⟨items, hitems, _⟩
  · rw [exists_ofOperand_single_iff allowZero fieldType hv]
    exact ⟨fun h _ => h, fun h => h hv⟩
  · have hmany : ¬ v.IsSingle := by
      cases v with
      | list _ | tuple _ => exact id
      | _ => cases hitems
    exact ⟨fun _ hv => absurd hv hmany,
      fun _ => ⟨items, ofOperand_of_items hitems allowZero fieldType⟩⟩

/-- A plain operand has terms that can be written down unless it is too long. -/
theorem exists_areWritable_iff (allowZero : Bool) (fieldType : Value) {v : Value}
    (hv : v.IsPlain) : (∃ ts, ofOperand allowZero fieldType v = .ok ts ∧
      Value.areWritable ts = true) ↔ ¬ TooLong v := by
  rcases hv with hv | ⟨items, hitems, hsingle⟩
  · rw [← exists_ofOperand_single_iff allowZero fieldType hv]
    constructor
    · rintro ⟨ts, hts, _⟩
      exact ⟨ts, hts⟩
    · rintro ⟨ts, hts⟩
      exact ⟨ts, hts, areWritable_of_isSingle hv hts⟩
  · rw [← areWritable_items_iff hitems hsingle, ofOperand_of_items hitems]
    simp

end Terms

end Typeahead
