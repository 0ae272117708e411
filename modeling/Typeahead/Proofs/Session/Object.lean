import Typeahead.Proofs.Options
import Typeahead.Session.Object

/-!
# Objects while they are flushed

The work of a flush reads expired objects again and numbers new ones, and leaves
everything else of an object: `Obj.Carries`.  What a stored object counts as changed is
therefore the same before and after that work.  Reading again alone is `Obj.Loads`, and it
keeps what an object shows of every attribute that did not have to be read again.
-/

namespace Typeahead

namespace Obj

/-- Every changed attribute has a value. -/
def Tracked (o : Obj) : Prop := ∀ change ∈ o.changes, o.values.has change.1 = true

theorem tracked_of_changes_eq_nil {o : Obj} (h : o.changes = []) : o.Tracked := by
  intro change hchange
  rw [h] at hchange
  cases hchange

theorem tracked_create (id : Nat) (entity : String) (values : Options) :
    (create id entity values).Tracked := by
  intro change hchange
  obtain ⟨e, he, rfl⟩ := List.mem_map.mp hchange
  exact List.any_eq_true.mpr ⟨e, he, by simp⟩

theorem tracked_set {o : Obj} (h : o.Tracked) (attr : String) (v : Value) :
    (o.set attr v).Tracked := by
  intro change hchange
  simp only [set, Options.has_set] at hchange ⊢
  split at hchange
  · rw [h change hchange, Bool.or_true]
  · rcases List.mem_append.mp hchange with hold | hnew
    · rw [h change hold, Bool.or_true]
    · rw [List.mem_singleton.mp hnew]
      simp

theorem tracked_setExtra {o : Obj} (h : o.Tracked) (name : String) (v : Value) :
    (o.setExtra name v).Tracked := by
  intro change hchange
  simp only [setExtra, Options.has_set]
  rw [h change hchange, Bool.or_true]

theorem get?_view (attrs : List String) (o : Obj) (n : String) :
    (o.view attrs).get? n =
      (o.values.get? n).or (if n ∈ attrs then some .null else none) :=
  Options.get?_supply (fun _ => .null) attrs o.values n

theorem get?_fill (attrs : List String) (r : Row) (o : Obj) (n : String) :
    (o.fill attrs r).values.get? n =
      (o.values.get? n).or (if n ∈ attrs then some (r.values.getD n .null) else none) :=
  Options.get?_supply (fun a => r.values.getD a .null) attrs o.values n

/-- What the work of a flush leaves of an object.  Only the values of a new object, one of
`fresh`, may change: it gets its key. -/
structure Carries (fresh : List Nat) (o p : Obj) : Prop where
  id : p.id = o.id
  entity : p.entity = o.entity
  standing : p.standing = o.standing
  key : p.key = o.key
  changes : p.changes = o.changes
  modified : p.modified = o.modified
  has : ∀ a, o.values.has a = true → p.values.has a = true
  values : o.id ∉ fresh → ∀ a, o.values.has a = true → p.values.get? a = o.values.get? a

namespace Carries

variable {fresh : List Nat} {o p q : Obj}

theorem refl (fresh : List Nat) (o : Obj) : Carries fresh o o where
  id := rfl
  entity := rfl
  standing := rfl
  key := rfl
  changes := rfl
  modified := rfl
  has _ h := h
  values _ _ _ := rfl

theorem trans (h : Carries fresh o p) (k : Carries fresh p q) : Carries fresh o q where
  id := k.id.trans h.id
  entity := k.entity.trans h.entity
  standing := k.standing.trans h.standing
  key := k.key.trans h.key
  changes := k.changes.trans h.changes
  modified := k.modified.trans h.modified
  has a ha := k.has a (h.has a ha)
  values hold a ha := by
    have hp : p.id ∉ fresh := by rwa [h.id]
    exact (k.values hp a (h.has a ha)).trans (h.values hold a ha)

theorem tracked (h : Carries fresh o p) (ho : o.Tracked) : p.Tracked := by
  intro change hchange
  rw [h.changes] at hchange
  exact h.has change.1 (ho change hchange)

/-- An object that was stored before has the same changes after the work of a flush. -/
theorem isModified_eq (h : Carries fresh o p) (ho : o.Tracked) (hold : o.id ∉ fresh) :
    p.isModified = o.isModified := by
  have hdiffers : ∀ change ∈ o.changes, p.differs change = o.differs change := by
    intro change hchange
    simp only [differs, h.values hold change.1 (ho change hchange)]
  have hnet : p.netChanges = o.netChanges := by
    rw [netChanges, netChanges, h.changes, List.filter_congr hdiffers]
  rw [isModified, isModified, h.modified, hnet]

end Carries

/-- An object that is expired and has a key may be read again from some row. -/
def Loads (attrs : List String) (o p : Obj) : Prop :=
  p = o ∨ o.expired = true ∧ o.key.isSome = true ∧ ∃ r, p = o.fill attrs r

namespace Loads

variable {attrs : List String} {o p q : Obj}

theorem refl (attrs : List String) (o : Obj) : Loads attrs o o := Or.inl rfl

theorem trans (h : Loads attrs o p) (k : Loads attrs p q) : Loads attrs o q := by
  rcases h with rfl | ⟨ho, hkey, r, rfl⟩
  · exact k
  · rcases k with rfl | ⟨hexpired, _⟩
    · exact Or.inr ⟨ho, hkey, r, rfl⟩
    · exact absurd hexpired (by simp [fill])

theorem carries (h : Loads attrs o p) (fresh : List Nat) : Carries fresh o p := by
  rcases h with rfl | ⟨_, _, r, rfl⟩
  · exact Carries.refl fresh p
  · refine ⟨rfl, rfl, rfl, rfl, rfl, rfl, ?_, ?_⟩
    · intro a ha
      rw [Options.has_eq_isSome] at ha ⊢
      obtain ⟨v, hv⟩ := Option.isSome_iff_exists.mp ha
      rw [get?_fill, hv]
      rfl
    · intro _ a ha
      rw [Options.has_eq_isSome] at ha
      obtain ⟨v, hv⟩ := Option.isSome_iff_exists.mp ha
      rw [get?_fill, hv]
      rfl

/-- An object shows the same of an attribute that it does not have to read again. -/
theorem get?_view_eq (h : Loads attrs o p) {a : String}
    (ha : o.expired = true → o.key.isSome = true → a ∈ attrs → o.values.has a = true) :
    (p.view attrs).get? a = (o.view attrs).get? a := by
  rcases h with rfl | ⟨ho, hkey, r, rfl⟩
  · rfl
  · rw [get?_view, get?_view, get?_fill]
    by_cases hmem : a ∈ attrs
    · have hsome := ha ho hkey hmem
      rw [Options.has_eq_isSome] at hsome
      obtain ⟨v, hv⟩ := Option.isSome_iff_exists.mp hsome
      rw [hv]
      rfl
    · simp [hmem]

end Loads

end Obj

end Typeahead
