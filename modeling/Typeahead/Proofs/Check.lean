import Typeahead.Check.Field

/-!
# What checks have accepted

A check of a field that gives a result has read it from the value of the field.
-/

namespace Typeahead

namespace Check

theorem text_of_readText {v : Value} {s : String} (h : readText v = .ok s) : v = .text s := by
  cases v with
  | text t => rw [Except.ok.inj h]
  | _ => cases h

theorem items_texts (n : Nat) (names : List String) :
    items (item readText) n (names.map .text) = .ok names := by
  induction names generalizing n with
  | nil => rfl
  | cons s names ih =>
      rw [List.map_cons, items, ih]
      rfl

theorem items_readText {n : Nat} {vs : List Value} {names : List String}
    (h : items (item readText) n vs = .ok names) : vs = names.map .text := by
  induction vs generalizing n names with
  | nil =>
      obtain rfl := Except.ok.inj h
      rfl
  | cons v vs ih =>
      rw [items] at h
      split at h
      · next s rest hs hrest =>
        obtain rfl := Except.ok.inj h
        have hv : readText v = .ok s := by
          rw [item] at hs
          split at hs
          · next hread => rw [hread, Except.ok.inj hs]
          · cases hs
        rw [text_of_readText hv, ih hrest]
        rfl
      · cases h
      · cases h
      · cases h

theorem field_eq_ok {α : Type} {name : String} {read : Value → Except Complaint α} {v : Value}
    {a : α} (h : field name read v = .ok a) : read v = .ok a := by
  rw [field] at h
  split at h
  · next hread => rw [hread, Except.ok.inj h]
  · cases h

theorem sequence_eq_ok {α : Type} {name : String} {kind : Complaint} {read : Value → Outcome α}
    {v : Value} {as : List α} (h : sequence name kind read v = .ok as) :
    ∃ vs, v.items? = some vs ∧ items read 0 vs = .ok as := by
  rw [sequence] at h
  split at h
  · cases h
  · next vs hvs =>
    split at h
    · next hread => exact ⟨vs, hvs, by rw [hread, Except.ok.inj h]⟩
    · cases h

theorem optional_eq_ok {α : Type} {read : Value → Outcome α} {v : Value} {a? : Option α}
    (h : optional read v = .ok a?) :
    v = .null ∧ a? = none ∨ ∃ a, a? = some a ∧ read v = .ok a := by
  unfold optional at h
  split at h
  · exact Or.inl ⟨rfl, (Except.ok.inj h).symm⟩
  · split at h
    · next a hread => exact Or.inr ⟨a, (Except.ok.inj h).symm, hread⟩
    · cases h

theorem optional_of_read {α : Type} {read : Value → Outcome α} {v : Value} {a : α}
    (hv : v ≠ .null) (h : read v = .ok a) : optional read v = .ok (some a) := by
  unfold optional
  split
  · contradiction
  · rw [h]

end Check

end Typeahead
