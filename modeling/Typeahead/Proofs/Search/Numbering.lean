import Mathlib.Algebra.Order.Ring.Int
import Typeahead.Proofs.Number.Numerals
import Typeahead.Proofs.Search.Paging

/-!
# Page numbers from any value

A page number is read from whatever stands in its place.  `Request.Numbered` says what it
comes to: the whole number in the value if that is positive, and a default otherwise.  Every
value has such a number but an infinity, which is beyond the range of whole numbers and is not
replaced.
-/

namespace Typeahead

namespace Numeral

/-- Blank text is no numeral. -/
theorem readInt_of_isBlankText {s : String} (h : Text.isBlankText s = true) :
    readInt s = .error .malformed := by
  have hnone : separatedDigits? Text.digitValue? (behindSign s) = none := by
    rw [Option.eq_none_iff_forall_ne_some]
    intro ds hds
    obtain ⟨c, hc, hdigit⟩ := (separated_of_separatedDigits hds).exists_digit
    have hblank := List.all_eq_true.mp h c ((sublist_behindSign s).subset hc)
    simp [Text.digitValue_of_isBlank hblank] at hdigit
  rw [readInt_eq, hnone]

end Numeral

namespace Value

/-- Whether a value is an infinity. -/
def IsInfinite (v : Value) : Prop := ∃ negative, v = .float (.infinite negative)

end Value

namespace Request

/-- What a page number comes to that is read from a value. -/
structure Numbered (default : Int) (v : Value) (n : Int) : Prop where
  /-- A positive whole number is kept. -/
  kept : ∀ m, wholeNumber? v = .ok (some m) → 0 < m → n = m
  /-- Anything else is replaced. -/
  replaced : (∀ m, wholeNumber? v = .ok (some m) → m ≤ 0) → n = default

/-- Only an infinity cannot be asked for the whole number in it. -/
theorem wholeNumber_total {v : Value} (h : ¬ v.IsInfinite) :
    ∃ found, wholeNumber? v = .ok found := by
  cases v with
  | float x =>
      cases x with
      | nan => exact ⟨_, rfl⟩
      | infinite negative => exact absurd ⟨negative, rfl⟩ h
      | finite negative m e => exact ⟨_, rfl⟩
  | text s =>
      rw [wholeNumber?]
      cases Numeral.readInt s with
      | ok n => exact ⟨_, rfl⟩
      | error e => exact ⟨_, rfl⟩
  | _ => exact ⟨_, rfl⟩

/-- What is left blank has no whole number in it. -/
theorem wholeNumber_of_blank {v : Value} (h : GeoPoint.present v = false) :
    wholeNumber? v = .ok none := by
  cases v with
  | null => rfl
  | text s =>
      have hblank : Text.isBlankText s = true := by simpa [GeoPoint.present] using h
      rw [wholeNumber?, Numeral.readInt_of_isBlankText hblank]
  | _ => cases h

/-- A page number is read from the whole number alone, whether or not the value is blank. -/
theorem positiveInt_eq {default : Int} {v : Value} {found : Option Int}
    (h : wholeNumber? v = .ok found) :
    positiveInt default v = .ok (found.elim default fun m => if 0 < m then m else default) := by
  rw [positiveInt]
  split
  · rw [h]
    cases found with
    | none => rfl
    | some m => rfl
  · next hblank =>
    rw [wholeNumber_of_blank (Bool.not_eq_true _ ▸ hblank)] at h
    obtain rfl := Except.ok.inj h
    rfl

/-- Every value but an infinity has its page number. -/
theorem positiveInt_numbered (default : Int) {v : Value} (h : ¬ v.IsInfinite) :
    ∃ n, positiveInt default v = .ok n ∧ Numbered default v n := by
  obtain ⟨found, hfound⟩ := wholeNumber_total h
  refine ⟨_, positiveInt_eq hfound, ?_, ?_⟩
  · intro m hm hpos
    obtain rfl := Except.ok.inj (hfound.symm.trans hm)
    simp [hpos]
  · intro hnone
    cases found with
    | none => rfl
    | some m => simp [not_lt.mpr (hnone m hfound)]

theorem positiveInt_of_isInfinite (default : Int) {v : Value} (h : v.IsInfinite) :
    positiveInt default v = .error .beyondRange := by
  obtain ⟨negative, rfl⟩ := h
  rfl

/-- Page numbers do not bear on the rest of a valid request. -/
theorem ofOptions_set {options : Options} {r : Request} (h : ofOptions options = .ok r)
    (page perPage : Value) :
    ofOptions ((options.set "page" page).set "per_page" perPage) = (do
      let n ← positiveInt defaultPage page
      let size ← positiveInt defaultPerPage perPage
      return { r with page := n, perPage := size }) := by
  have hother (name : String) (d : Value) (hpage : "page" ≠ name) (hsize : "per_page" ≠ name) :
      ((options.set "page" page).set "per_page" perPage).getD name d = options.getD name d := by
    rw [Options.getD_set, Options.getD_set, if_neg hsize, if_neg hpage]
  have hnumber : ((options.set "page" page).set "per_page" perPage).getD "page" .null = page := by
    simp [Options.getD_set]
  have hsize :
      ((options.set "page" page).set "per_page" perPage).getD "per_page" .null = perPage := by
    simp [Options.getD_set]
  have hread := ofOptions_eq_ok_iff.mp h
  rw [ofOptions, hother "text" _ (by decide) (by decide),
    hother "fields" _ (by decide) (by decide), hother "filters" _ (by decide) (by decide),
    hother "exclusions" _ (by decide) (by decide), hother "sort" _ (by decide) (by decide),
    hother "geo" _ (by decide) (by decide), hother "geo_order" _ (by decide) (by decide),
    hnumber, hsize, hread.filters, hread.exclusions, hread.sort, hread.text, hread.fields,
    hread.geo, hread.geoOrder]
  rfl

/-- A valid request stays valid with any values in the place of its page number and its page size,
apart from infinities.  The two numbers that it then has are those of the values, they are positive,
the window of the page does not start before the first hit, and nothing else has changed. -/
theorem ofOptions_numbered {options : Options} {r : Request} (h : ofOptions options = .ok r)
    (page perPage : Value) :
    ((∃ r', ofOptions ((options.set "page" page).set "per_page" perPage) = .ok r') ↔
        ¬ page.IsInfinite ∧ ¬ perPage.IsInfinite) ∧
      ∀ r', ofOptions ((options.set "page" page).set "per_page" perPage) = .ok r' →
        r' = { r with page := r'.page, perPage := r'.perPage } ∧
          Numbered 1 page r'.page ∧ Numbered 50 perPage r'.perPage ∧
          1 ≤ r'.page ∧ 1 ≤ r'.perPage ∧ 0 ≤ r'.offset := by
  rw [ofOptions_set h]
  by_cases hpage : page.IsInfinite
  · rw [positiveInt_of_isInfinite _ hpage]
    simp [Bind.bind, Except.bind, hpage]
  obtain ⟨n, hn, hnumbered⟩ := positiveInt_numbered defaultPage hpage
  by_cases hperPage : perPage.IsInfinite
  · rw [hn, positiveInt_of_isInfinite _ hperPage]
    simp [Bind.bind, Except.bind, hperPage]
  obtain ⟨size, hsize, hsized⟩ := positiveInt_numbered defaultPerPage hperPage
  have hnpos : 0 < n := positiveInt_pos (by decide) hn
  have hsizepos : 0 < size := positiveInt_pos (by decide) hsize
  rw [hn, hsize]
  refine ⟨⟨fun _ => ⟨hpage, hperPage⟩, fun _ => ⟨_, rfl⟩⟩, ?_⟩
  intro r' hr'
  obtain rfl := Except.ok.inj hr'
  refine ⟨rfl, hnumbered, hsized, hnpos, hsizepos, ?_⟩
  exact mul_nonneg (sub_nonneg.mpr hnpos) hsizepos.le

/-- A valid request with nothing but text. -/
def plainRequest : Request where
  text := "ber"
  fields := none
  filters := []
  exclusions := []
  sort := []
  geo := none
  geoOrder := false
  page := 1
  perPage := 50

theorem ofOptions_plainRequest : ofOptions [("text", .text "ber")] = .ok plainRequest := rfl

/-- A page number that is typed with blanks around it is kept, and what is not a number is
replaced. -/
theorem ofOptions_numbered_plainRequest :
    ofOptions [("text", .text "ber")] = .ok plainRequest ∧
      ∃ r', ofOptions [("text", .text "ber"), ("page", .text " 7 "), ("per_page", .float .nan)] =
        .ok r' ∧ r'.page = 7 ∧ r'.perPage = 50 := by
  have h := ofOptions_numbered ofOptions_plainRequest (.text " 7 ") (.float .nan)
  have hpage : ¬ (Value.text " 7 ").IsInfinite := by rintro ⟨_, h⟩; cases h
  have hsize : ¬ (Value.float .nan).IsInfinite := by rintro ⟨_, h⟩; cases h
  obtain ⟨r', hr'⟩ := h.1.mpr ⟨hpage, hsize⟩
  obtain ⟨-, hnumbered, hsized, -⟩ := h.2 r' hr'
  exact ⟨ofOptions_plainRequest, r', hr', hnumbered.kept 7 rfl (by decide),
    hsized.replaced fun m hm => by cases hm⟩

/-- An infinite page number is not replaced: it makes a request fail that is valid without it. -/
theorem exists_unnumbered :
    ofOptions [("text", .text "ber")] = .ok plainRequest ∧
      ofOptions [("text", .text "ber"), ("page", .float (.infinite false))] =
        .error .beyondRange := ⟨rfl, rfl⟩

end Request

end Typeahead
