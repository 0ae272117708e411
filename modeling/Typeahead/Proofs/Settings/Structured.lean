import Typeahead.Proofs.Settings.Commas
import Typeahead.Proofs.Settings.Reading

/-!
# Structured text is no list with commas

Reading structured text takes quotes, brackets and escapes away, so names that are read from it
weigh less than the text does (`Text.weight`).  A list with commas weighs as much as its text, and
so structured text is never read as the names that it would be as a list with commas.
-/

namespace Typeahead

namespace Json

open Text

/-! Text between quotes. -/

/-- One more character in front of a text between quotes. -/
theorem weight_of_quotedText_cons {fuel : Nat} {c : Char} {cs t rest : List Char}
    (ih : ∀ {t rest}, quotedText fuel cs = some (t, rest) → weight t + weight rest < weight cs)
    (h : (do
      let (s, rest) ← quotedText fuel cs
      return (c :: s, rest)) = some (t, rest)) :
    weight t + weight rest < weight [c] + weight cs := by
  obtain ⟨⟨s, rest'⟩, hs, heq⟩ := Option.bind_eq_some_iff.mp h
  obtain ⟨rfl, rfl⟩ := Prod.mk.inj (Option.some.inj heq)
  have hread := ih hs
  rw [weight_cons_eq]
  omega

/-- A quoted text and what follows it weigh less than both with the closing quote. -/
theorem weight_of_quotedText {fuel : Nat} {cs t rest : List Char}
    (h : quotedText fuel cs = some (t, rest)) : weight t + weight rest < weight cs := by
  induction fuel generalizing cs t rest with
  | zero => cases h
  | succ fuel ih =>
      unfold quotedText at h
      split at h
      · cases h
      · next rest' =>
        obtain ⟨rfl, rfl⟩ := Prod.mk.inj (Option.some.inj h)
        rw [weight_cons_of_solid (by decide), weight_nil]
        omega
      · next a b c d rest' =>
        obtain ⟨high, _, h⟩ := Option.bind_eq_some_iff.mp h
        have hlong : weight rest' + 2 ≤ weight ('\\' :: 'u' :: a :: b :: c :: d :: rest') := by
          rw [weight_cons_of_solid (by decide), weight_cons_of_solid (by decide)]
          have hsub := weight_le_of_sublist (List.sublist_append_right [a, b, c, d] rest')
          simpa using hsub
        -- half of a pair without the other half is one character
        have halone (h : (do
            let (s, rest) ← quotedText fuel rest'
            return (single high :: s, rest)) = some (t, rest)) :
            weight t + weight rest < weight ('\\' :: 'u' :: a :: b :: c :: d :: rest') := by
          have hread := weight_of_quotedText_cons ih h
          have hone := weight_singleton_le (single high)
          omega
        split at h
        · next e f g k rest'' _ =>
          split at h
          · next low _ =>
            split at h
            · have hread := weight_of_quotedText_cons ih h
              have hone := weight_singleton_le (paired high low)
              have hsub := weight_le_of_sublist
                (List.sublist_append_right ['\\', 'u', e, f, g, k] rest'')
              simp only [List.cons_append, List.nil_append] at hsub
              omega
            · exact halone h
          · exact halone h
        · exact halone h
      · next c rest' _ =>
        obtain ⟨c', _, h⟩ := Option.bind_eq_some_iff.mp h
        have hread := weight_of_quotedText_cons ih h
        have hone := weight_singleton_le c'
        have hsub := weight_le_of_sublist (List.sublist_cons_self c rest')
        rw [weight_cons_of_solid (by decide)]
        omega
      · next c rest' _ _ _ =>
        split at h
        · cases h
        · rw [weight_cons_eq]
          exact weight_of_quotedText_cons ih h

/-! Words and numbers. -/

theorem magnitude_eq_some {negative : Bool} {cs rest : List Char} {v : Value}
    (h : magnitude negative cs = some (v, rest)) : (∃ n, v = .int n) ∨ ∃ x, v = .float x := by
  obtain ⟨whole, _, h⟩ := Option.bind_eq_some_iff.mp h
  dsimp only at h
  split at h
  · obtain ⟨rfl, _⟩ := Prod.mk.inj (Option.some.inj h)
    exact Or.inr ⟨_, rfl⟩
  · split at h
    · split at h
      · cases h
      · obtain ⟨rfl, _⟩ := Prod.mk.inj (Option.some.inj h)
        exact Or.inl ⟨_, rfl⟩
    · obtain ⟨rfl, _⟩ := Prod.mk.inj (Option.some.inj h)
      exact Or.inr ⟨_, rfl⟩

theorem weight_of_dropWord? {word : String} {cs rest : List Char}
    (h : dropWord? word cs = some rest) : weight cs = weight word.toList + weight rest := by
  rw [dropWord?] at h
  split at h
  · next hword =>
    obtain ⟨tail, rfl⟩ := List.isPrefixOf_iff_prefix.mp hword
    rw [weight_append, ← Option.some.inj h, ← String.length_toList, List.drop_left]
  · cases h

/-- Words and numbers are neither text nor lists, and the word for null has its four letters. -/
theorem scalar_eq_some {cs rest : List Char} {v : Value} (h : scalar cs = some (v, rest)) :
    (v = .null ∧ 4 ≤ weight cs) ∨ (∃ b, v = .bool b) ∨ (∃ n, v = .int n) ∨
      ∃ x, v = .float x := by
  unfold scalar at h
  split at h
  · next found hfound =>
    obtain ⟨w, hw, hdrop⟩ := List.exists_of_findSome?_eq_some hfound
    obtain ⟨rest', hrest, rfl⟩ := Option.map_eq_some_iff.mp hdrop
    obtain ⟨rfl, rfl⟩ := Prod.mk.inj (Option.some.inj h)
    have hweight := weight_of_dropWord? hrest
    simp only [words, List.mem_cons, List.not_mem_nil, or_false] at hw
    rcases hw with rfl | rfl | rfl | rfl | rfl | rfl
    · have hnull : weight "null".toList = 4 := by decide
      dsimp only at hweight
      exact Or.inl ⟨rfl, by omega⟩
    · exact Or.inr (Or.inl ⟨_, rfl⟩)
    · exact Or.inr (Or.inl ⟨_, rfl⟩)
    · exact Or.inr (Or.inr (Or.inr ⟨_, rfl⟩))
    · exact Or.inr (Or.inr (Or.inr ⟨_, rfl⟩))
    · exact Or.inr (Or.inr (Or.inr ⟨_, rfl⟩))
  · split at h
    · exact Or.inr (Or.inr (magnitude_eq_some h))
    · exact Or.inr (Or.inr (magnitude_eq_some h))

/-! Values. -/

theorem weight_skipGap_le (cs : List Char) : weight (skipGap cs) ≤ weight cs :=
  weight_le_of_sublist (List.dropWhile_sublist _)

/-- What can be read from the front of a text. -/
inductive Front (cs rest : List Char) : Value → Prop
  | text (s : String) (h : weight s.toList + weight rest < weight cs) : Front cs rest (.text s)
  | list (vs : List Value) (hcs : 0 < weight cs)
      (h : vs = [] ∨ ∃ fuel ds, items fuel ds = some (vs, rest) ∧ weight ds < weight cs) :
      Front cs rest (.list vs)
  | dict (entries : Entries) : Front cs rest (.dict entries)
  | scalar (v : Value) (h : Json.scalar cs = some (v, rest)) : Front cs rest v

theorem front_of_value {fuel : Nat} {cs rest : List Char} {v : Value}
    (h : value fuel cs = some (v, rest)) : Front cs rest v := by
  cases fuel with
  | zero => cases h
  | succ fuel =>
      unfold value at h
      split at h
      · obtain ⟨⟨t, rest'⟩, ht, heq⟩ := Option.map_eq_some_iff.mp h
        obtain ⟨rfl, rfl⟩ := Prod.mk.inj heq
        have hread := weight_of_quotedText ht
        refine .text _ ?_
        dsimp only
        rw [String.toList_ofList, weight_cons_of_solid (by decide)]
        omega
      · next rest' =>
        have hgap := weight_skipGap_le rest'
        have hcs : weight ('[' :: rest') = weight rest' + 1 := weight_cons_of_solid (by decide) _
        split at h
        · obtain ⟨rfl, rfl⟩ := Prod.mk.inj (Option.some.inj h)
          exact .list [] (by omega) (Or.inl rfl)
        · obtain ⟨⟨vs, rest''⟩, hvs, heq⟩ := Option.map_eq_some_iff.mp h
          obtain ⟨rfl, rfl⟩ := Prod.mk.inj heq
          exact .list vs (by omega) (Or.inr ⟨fuel, _, hvs, by omega⟩)
      · split at h
        · obtain ⟨rfl, _⟩ := Prod.mk.inj (Option.some.inj h)
          exact .dict []
        · obtain ⟨_, _, heq⟩ := Option.map_eq_some_iff.mp h
          obtain ⟨rfl, _⟩ := Prod.mk.inj heq
          exact .dict _
      · exact .scalar v h

theorem weight_of_value_text {fuel : Nat} {cs rest : List Char} {s : String}
    (h : value fuel cs = some (.text s, rest)) : weight s.toList + weight rest < weight cs := by
  cases front_of_value h with
  | text _ h => exact h
  | scalar _ h =>
      rcases scalar_eq_some h with ⟨hv, _⟩ | ⟨_, hv⟩ | ⟨_, hv⟩ | ⟨_, hv⟩
      all_goals cases hv

theorem weight_of_value_null {fuel : Nat} {cs rest : List Char}
    (h : value fuel cs = some (.null, rest)) : 4 ≤ weight cs := by
  cases front_of_value h with
  | scalar _ h =>
      rcases scalar_eq_some h with ⟨_, hweight⟩ | ⟨_, hv⟩ | ⟨_, hv⟩ | ⟨_, hv⟩
      · exact hweight
      all_goals cases hv

/-- The names in a list weigh less than the list. -/
theorem weight_of_items {fuel : Nat} {cs rest : List Char} {names : List String}
    (h : items fuel cs = some (names.map .text, rest)) :
    Settings.listWeight names + weight rest < weight cs := by
  induction fuel generalizing cs names rest with
  | zero => cases h
  | succ fuel ih =>
      unfold items at h
      obtain ⟨⟨v, rest'⟩, hv, h⟩ := Option.bind_eq_some_iff.mp h
      have hgap := weight_skipGap_le rest'
      dsimp only at h
      split at h
      · next rest'' hrest =>
        obtain ⟨⟨vs, rest₃⟩, hvs, heq⟩ := Option.bind_eq_some_iff.mp h
        obtain ⟨hnames, rfl⟩ := Prod.mk.inj (Option.some.inj heq)
        obtain ⟨n, ns, rfl, rfl, rfl⟩ := List.map_eq_cons_iff.mp hnames.symm
        have hhead := weight_of_value_text hv
        have htail := ih hvs
        dsimp only
        have hskip := weight_skipGap_le rest''
        have hcomma : weight (',' :: rest'') = weight rest'' :=
          weight_cons_of_not_solid (by decide) _
        rw [hrest] at hgap
        rw [Settings.listWeight_cons]
        omega
      · next rest'' hrest =>
        obtain ⟨hnames, rfl⟩ := Prod.mk.inj (Option.some.inj h)
        obtain ⟨n, ns, rfl, rfl, hns⟩ := List.map_eq_cons_iff.mp hnames.symm
        obtain rfl := List.map_eq_nil_iff.mp hns
        have hhead := weight_of_value_text hv
        rw [hrest, weight_cons_of_solid (by decide)] at hgap
        rw [Settings.listWeight_cons, Settings.listWeight_nil]
        omega
      · cases h

/-- Names that are read from structured text weigh less than the text. -/
theorem weight_of_value_names {fuel : Nat} {cs rest : List Char} {v : Value} {field : String}
    {names : List String} (h : value fuel cs = some (v, rest))
    (hnames : Settings.readNames field v = .ok names) :
    Settings.listWeight names < weight cs := by
  rcases Settings.readNames_eq_ok hnames with rfl | rfl | ⟨s, rfl, rfl⟩
  · cases front_of_value h with
    | list _ hcs hlist =>
        rcases hlist with hnil | ⟨fuel, ds, hitems, hds⟩
        · obtain rfl := List.map_eq_nil_iff.mp hnil
          exact hcs
        · have hweight := weight_of_items hitems
          omega
    | scalar _ h =>
        rcases scalar_eq_some h with ⟨hv, _⟩ | ⟨_, hv⟩ | ⟨_, hv⟩ | ⟨_, hv⟩
        all_goals cases hv
  · cases front_of_value h with
    | scalar _ h =>
        rcases scalar_eq_some h with ⟨hv, _⟩ | ⟨_, hv⟩ | ⟨_, hv⟩ | ⟨_, hv⟩
        all_goals cases hv
  · rw [Settings.listWeight_commaList]
    have hweight := weight_of_value_text h
    omega

theorem value_of_read? {s : String} {v : Value} (h : read? s = some v) :
    ∃ fuel cs rest, value fuel cs = some (v, rest) ∧ weight cs ≤ weight s.toList := by
  rw [read?] at h
  split at h
  · next w rest hvalue =>
    split at h
    · obtain rfl := Option.some.inj h
      exact ⟨_, _, rest, hvalue, weight_skipGap_le _⟩
    · cases h
  · cases h

/-- The names that structured text is read as are not those of a list with commas. -/
theorem readNames_ne_commaList {s : String} {v : Value} (h : read? s = some v) (field : String) :
    Settings.readNames field v ≠ .ok (Settings.commaList s) := by
  intro hnames
  obtain ⟨fuel, cs, rest, hvalue, hweight⟩ := value_of_read? h
  have hlist := weight_of_value_names hvalue hnames
  rw [Settings.listWeight_commaList] at hlist
  omega

theorem weight_of_read?_null {s : String} (h : read? s = some .null) : 4 ≤ weight s.toList := by
  obtain ⟨fuel, cs, rest, hvalue, hweight⟩ := value_of_read? h
  have hnull := weight_of_value_null hvalue
  omega

end Json

end Typeahead
