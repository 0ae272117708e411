import Mathlib.Logic.Relation
import Mathlib.Tactic.Ring
import Typeahead.Value.Basic

/-!
# Equality of values

`Value.same` is symmetric and transitive on the values that may be keys of a mapping.
Numbers of all kinds are compared as quotients, `Value.quotient?`.  Equality is not
reflexive: what is not a number differs from itself, and `Value.IsId` leaves this out.
-/

namespace Typeahead

theorem Binary64.ratio?_pos {x : Binary64} {p : Int × Nat} (h : x.ratio? = some p) : 0 < p.2 := by
  cases x with
  | nan => cases h
  | infinite negative => cases h
  | finite negative m e =>
      obtain rfl := Option.some.inj h
      exact Nat.pow_pos (by decide)

namespace DateTime

theorem sameInstant_symm {s t : DateTime} (h : s.sameInstant t = true) :
    t.sameInstant s = true := by
  unfold sameInstant at h ⊢
  cases hs : s.offset <;> cases ht : t.offset <;> simp_all

theorem sameInstant_trans {s t u : DateTime} (h : s.sameInstant t = true)
    (k : t.sameInstant u = true) : s.sameInstant u = true := by
  unfold sameInstant at h k ⊢
  cases hs : s.offset <;> cases ht : t.offset <;> cases hu : u.offset <;> simp_all

end DateTime

namespace Value

/-- A number of any kind as a quotient. -/
def quotient? : Value → Option (Int × Nat)
  | .bool b => some (ofBool b, 1)
  | .int n => some (n, 1)
  | .float x => x.ratio?
  | _ => none

theorem quotient?_pos {v : Value} {p : Int × Nat} (h : v.quotient? = some p) : 0 < p.2 := by
  cases v with
  | bool b =>
      obtain rfl := Option.some.inj h
      exact Nat.one_pos
  | int n =>
      obtain rfl := Option.some.inj h
      exact Nat.one_pos
  | float x => exact Binary64.ratio?_pos h
  | _ => cases h

section

attribute [local simp] same

/-- Numbers are the same when their quotients are equal. -/
theorem same_iff_of_quotient? {v : Value} {p : Int × Nat} (h : v.quotient? = some p) (w : Value) :
    v.same w = true ↔ ∃ q, w.quotient? = some q ∧ p.1 * (q.2 : Int) = q.1 * (p.2 : Int) := by
  cases v with
  | bool b =>
      obtain rfl := Option.some.inj h
      cases w with
      | bool a => cases a <;> cases b <;> simp [quotient?, ofBool]
      | int n =>
          simp only [same, quotient?, beq_iff_eq, Option.some.injEq, exists_eq_left', Nat.cast_one,
            mul_one]
          exact eq_comm
      | float x => cases hx : x.ratio? <;> simp [quotient?, Binary64.sameInt, hx, eq_comm]
      | _ => simp [quotient?]
  | int n =>
      obtain rfl := Option.some.inj h
      cases w with
      | bool b => simp [quotient?]
      | int m => simp [quotient?]
      | float x => cases hx : x.ratio? <;> simp [quotient?, Binary64.sameInt, hx, eq_comm]
      | _ => simp [quotient?]
  | float x =>
      have hx : x.ratio? = some p := h
      cases w with
      | bool b => simp [quotient?, Binary64.sameInt, hx]
      | int n => simp [quotient?, Binary64.sameInt, hx]
      | float y =>
          cases x with
          | finite negative m e =>
              cases hy : y.ratio? <;> simp [quotient?, Binary64.sameValue, hx, hy]
          | _ => cases hx
      | _ => simp [quotient?]
  | _ => cases h

theorem same_null_iff (w : Value) : null.same w = true ↔ w = .null := by
  cases w <;> simp

theorem same_text_iff (s : String) (w : Value) : (text s).same w = true ↔ w = .text s := by
  cases w with
  | text r =>
      simp only [same, beq_iff_eq, text.injEq]
      exact eq_comm
  | _ => simp

theorem same_date_iff (d : Date) (w : Value) : (date d).same w = true ↔ w = .date d := by
  cases w with
  | date e =>
      simp only [same, decide_eq_true_eq, date.injEq]
      exact eq_comm
  | _ => simp

theorem same_datetime_iff (t : DateTime) (w : Value) :
    (datetime t).same w = true ↔ ∃ u, w = .datetime u ∧ t.sameInstant u = true := by
  cases w <;> simp

theorem same_infinite_iff (b : Bool) (w : Value) :
    (float (.infinite b)).same w = true ↔ w = .float (.infinite b) := by
  cases w with
  | float x =>
      cases x with
      | infinite a =>
          simp only [same, Binary64.sameValue, beq_iff_eq, float.injEq, Binary64.infinite.injEq]
          exact eq_comm
      | _ => simp [Binary64.sameValue, Binary64.ratio?]
  | _ => simp [Binary64.sameInt, Binary64.ratio?]

theorem same_nan (w : Value) : (float .nan).same w = false := by
  cases w <;> simp [Binary64.sameInt, Binary64.sameValue, Binary64.ratio?]

theorem same_tuple_iff (items : List Value) (w : Value) :
    (tuple items).same w = true ↔ ∃ others, w = .tuple others ∧ sameItems items others = true := by
  cases w <;> simp

end

/-- The kinds of values that may be keys.  Besides numbers and tuples, each kind is compared
among itself. -/
theorem kinds_of_isKey {v : Value} (h : v.isKey = true) :
    (∃ p, v.quotient? = some p) ∨ (∃ items, v = .tuple items ∧ areKeys items = true) ∨
      v = .null ∨ (∃ s, v = .text s) ∨ (∃ d, v = .date d) ∨ (∃ t, v = .datetime t) ∨
      v = .float .nan ∨ ∃ b, v = .float (.infinite b) := by
  cases v with
  | bool b => exact Or.inl ⟨_, rfl⟩
  | int n => exact Or.inl ⟨_, rfl⟩
  | float x =>
      cases x with
      | finite b m e => exact Or.inl ⟨_, rfl⟩
      | _ => simp
  | list items => simp [isKey] at h
  | tuple items => exact Or.inr (Or.inl ⟨items, rfl, by simpa [isKey] using h⟩)
  | dict entries => simp [isKey] at h
  | _ => simp

mutual

/-- Equality is symmetric from a value that may be a key. -/
theorem same_symm : ∀ {v w : Value}, v.isKey = true → v.same w = true → w.same v = true := by
  intro v w hkey h
  rcases kinds_of_isKey hkey with ⟨p, hp⟩ | ⟨items, rfl, hitems⟩ | rfl | ⟨s, rfl⟩ | ⟨d, rfl⟩ |
    ⟨t, rfl⟩ | rfl | ⟨b, rfl⟩
  · obtain ⟨q, hq, heq⟩ := (same_iff_of_quotient? hp w).mp h
    exact (same_iff_of_quotient? hq v).mpr ⟨p, hp, heq.symm⟩
  · obtain ⟨others, rfl, hothers⟩ := (same_tuple_iff items w).mp h
    exact (same_tuple_iff others _).mpr ⟨items, rfl, sameItems_symm hitems hothers⟩
  · rw [(same_null_iff w).mp h]
    exact (same_null_iff _).mpr rfl
  · rw [(same_text_iff s w).mp h]
    exact (same_text_iff s _).mpr rfl
  · rw [(same_date_iff d w).mp h]
    exact (same_date_iff d _).mpr rfl
  · obtain ⟨u, rfl, hu⟩ := (same_datetime_iff t w).mp h
    exact (same_datetime_iff u _).mpr ⟨t, rfl, DateTime.sameInstant_symm hu⟩
  · rw [same_nan] at h
    cases h
  · rw [(same_infinite_iff b w).mp h]
    exact (same_infinite_iff b _).mpr rfl

theorem sameItems_symm : ∀ {xs ys : List Value}, areKeys xs = true → sameItems xs ys = true →
    sameItems ys xs = true
  | [], [], _, _ => rfl
  | x :: xs, y :: ys, hkeys, h => by
      simp only [areKeys, sameItems, Bool.and_eq_true] at hkeys h ⊢
      exact ⟨same_symm hkeys.1 h.1, sameItems_symm hkeys.2 h.2⟩

end

mutual

/-- Equality is transitive from a value that may be a key. -/
theorem same_trans : ∀ {v w u : Value}, v.isKey = true → v.same w = true → w.same u = true →
    v.same u = true := by
  intro v w u hkey h k
  rcases kinds_of_isKey hkey with ⟨p, hp⟩ | ⟨items, rfl, hitems⟩ | rfl | ⟨s, rfl⟩ | ⟨d, rfl⟩ |
    ⟨t, rfl⟩ | rfl | ⟨b, rfl⟩
  · obtain ⟨q, hq, hpq⟩ := (same_iff_of_quotient? hp w).mp h
    obtain ⟨r, hr, hqr⟩ := (same_iff_of_quotient? hq u).mp k
    refine (same_iff_of_quotient? hp u).mpr ⟨r, hr, ?_⟩
    -- the quotient in the middle has a denominator that can be cancelled
    have hpos : (q.2 : Int) ≠ 0 := by exact_mod_cast (quotient?_pos hq).ne'
    refine mul_right_cancel₀ hpos ?_
    calc p.1 * (r.2 : Int) * q.2 = p.1 * q.2 * r.2 := by ring
      _ = q.1 * p.2 * r.2 := by rw [hpq]
      _ = q.1 * r.2 * p.2 := by ring
      _ = r.1 * q.2 * p.2 := by rw [hqr]
      _ = r.1 * (p.2 : Int) * q.2 := by ring
  · obtain ⟨others, rfl, hothers⟩ := (same_tuple_iff items w).mp h
    obtain ⟨rest, rfl, hrest⟩ := (same_tuple_iff others u).mp k
    exact (same_tuple_iff items _).mpr ⟨rest, rfl, sameItems_trans hitems hothers hrest⟩
  · rw [(same_null_iff w).mp h] at k
    exact k
  · rw [(same_text_iff s w).mp h] at k
    exact k
  · rw [(same_date_iff d w).mp h] at k
    exact k
  · obtain ⟨t', rfl, ht⟩ := (same_datetime_iff t w).mp h
    obtain ⟨u', rfl, hu⟩ := (same_datetime_iff t' u).mp k
    exact (same_datetime_iff t _).mpr ⟨u', rfl, DateTime.sameInstant_trans ht hu⟩
  · rw [same_nan] at h
    cases h
  · rw [(same_infinite_iff b w).mp h] at k
    exact k

theorem sameItems_trans : ∀ {xs ys zs : List Value}, areKeys xs = true →
    sameItems xs ys = true → sameItems ys zs = true → sameItems xs zs = true
  | [], [], [], _, _, _ => rfl
  | x :: xs, y :: ys, z :: zs, hkeys, h, k => by
      simp only [areKeys, sameItems, Bool.and_eq_true] at hkeys h k ⊢
      exact ⟨same_trans hkeys.1 h.1 k.1, sameItems_trans hkeys.2 h.2 k.2⟩

end

mutual

/-- What is the same as a key may be a key. -/
theorem isKey_of_same : ∀ {v w : Value}, v.isKey = true → v.same w = true → w.isKey = true := by
  intro v w hkey h
  rcases kinds_of_isKey hkey with ⟨p, hp⟩ | ⟨items, rfl, hitems⟩ | rfl | ⟨s, rfl⟩ | ⟨d, rfl⟩ |
    ⟨t, rfl⟩ | rfl | ⟨b, rfl⟩
  · obtain ⟨q, hq, _⟩ := (same_iff_of_quotient? hp w).mp h
    cases w with
    | bool b => rfl
    | int n => rfl
    | float x => rfl
    | _ => cases hq
  · obtain ⟨others, rfl, hothers⟩ := (same_tuple_iff items w).mp h
    exact areKeys_of_sameItems hitems hothers
  · rw [(same_null_iff w).mp h]
    exact hkey
  · rw [(same_text_iff s w).mp h]
    exact hkey
  · rw [(same_date_iff d w).mp h]
    exact hkey
  · obtain ⟨u, rfl, _⟩ := (same_datetime_iff t w).mp h
    exact hkey
  · rw [same_nan] at h
    cases h
  · rw [(same_infinite_iff b w).mp h]
    exact hkey

theorem areKeys_of_sameItems : ∀ {xs ys : List Value}, areKeys xs = true →
    sameItems xs ys = true → areKeys ys = true
  | [], [], _, _ => rfl
  | x :: xs, y :: ys, hkeys, h => by
      simp only [areKeys, sameItems, Bool.and_eq_true] at hkeys h ⊢
      exact ⟨isKey_of_same hkeys.1 h.1, areKeys_of_sameItems hkeys.2 h.2⟩

end

/-- A value that tells things apart: it may be a key, and it is the same as itself. -/
structure IsId (v : Value) : Prop where
  isKey : v.isKey = true
  refl : v.same v = true

namespace IsId

variable {v w u : Value}

theorem symm (h : v.IsId) (hvw : v.same w = true) : w.same v = true := same_symm h.isKey hvw

theorem trans (h : v.IsId) (hvw : v.same w = true) (hwu : w.same u = true) : v.same u = true :=
  same_trans h.isKey hvw hwu

theorem of_same (h : v.IsId) (hvw : v.same w = true) : w.IsId where
  isKey := isKey_of_same h.isKey hvw
  refl := same_trans (isKey_of_same h.isKey hvw) (h.symm hvw) hvw

/-- Two names of one thing are the same as the same values. -/
theorem same_congr (h : v.IsId) (hvw : v.same w = true) (u : Value) : v.same u = w.same u := by
  rw [Bool.eq_iff_iff]
  exact ⟨fun hvu => (h.of_same hvw).trans (h.symm hvw) hvu, fun hwu => h.trans hvw hwu⟩

end IsId

/-- Equal in a chain of values, each the same as the next. -/
def Agrees : Value → Value → Prop := Relation.ReflTransGen fun v w => v.same w = true

end Value

end Typeahead
