import Typeahead.Proofs.Options
import Typeahead.Proofs.Value.Same
import Typeahead.Session.Object

/-!
# Objects and their rows

How an object of a session stands to the row behind it.  An object that is settled shows the
values of its row, `Obj.Shows`; one with changes still knows them from before, `Obj.Tracks`.
Writing the changes to the row makes it show them again.  A value that was set back to an
equal one is not written, so values agree only up to `Value.Agrees`.
-/

namespace Typeahead

namespace Value

theorem Agrees.refl (v : Value) : v.Agrees v := Relation.ReflTransGen.refl

theorem Agrees.of_same {v w u : Value} (h : v.same w = true) (k : w.Agrees u) : v.Agrees u :=
  Relation.ReflTransGen.head h k

end Value

namespace Obj

/-- The id that an object shows. -/
def label (o : Obj) : Value := o.values.getD "id" .null

theorem label_set (o : Obj) {attr : String} (value : Value) (hne : attr ≠ "id") :
    (o.set attr value).label = o.label := by
  rw [label, Obj.set, Options.getD_set, if_neg hne]
  rfl

/-- The values of an object agree with those of a row. -/
def Shows (o : Obj) (r : Row) : Prop :=
  ∀ a, (o.values.getD a .null).Agrees (r.values.getD a .null)

/-- The values of an object agree with those of a row, apart from its changes; of those it
remembers the values before. -/
structure Tracks (o : Obj) (r : Row) : Prop where
  unchanged : ∀ a, a ∉ o.changes.map (·.1) →
    (o.values.getD a .null).Agrees (r.values.getD a .null)
  changed : ∀ a before, (a, some before) ∈ o.changes → before.Agrees (r.values.getD a .null)

/-- The values of a row with some of them taken from an object. -/
def assigned (o : Obj) (attrs : List String) (r : Row) : Options :=
  attrs.foldl (fun values a => values.set a (o.values.getD a .null)) r.values

theorem netChanges_subset (o : Obj) {a : String} (h : a ∈ o.netChanges) :
    a ∈ o.changes.map (·.1) := by
  obtain ⟨change, hchange, rfl⟩ := List.mem_map.mp h
  exact List.mem_map_of_mem (List.mem_filter.mp hchange).1

theorem Tracks.of_shows {o : Obj} {r : Row} (h : o.Shows r) (hchanges : o.changes = []) :
    o.Tracks r where
  unchanged a _ := h a
  changed a before hmem := by
    rw [hchanges] at hmem
    cases hmem

/-- The first time that an attribute is set, its value from before is noted. -/
theorem changes_set (o : Obj) (attr : String) (v : Value) :
    attr ∈ o.changes.map (·.1) ∧ (o.set attr v).changes = o.changes ∨
      attr ∉ o.changes.map (·.1) ∧
        (o.set attr v).changes = o.changes ++ [(attr, o.values.get? attr)] := by
  cases hknown : o.changes.any fun e => e.1 == attr with
  | true =>
      obtain ⟨e, he, hattr⟩ := List.any_eq_true.mp hknown
      exact Or.inl ⟨List.mem_map.mpr ⟨e, he, eq_of_beq hattr⟩, by simp [Obj.set, hknown]⟩
  | false =>
      refine Or.inr ⟨fun hmem => ?_, by simp [Obj.set, hknown]⟩
      obtain ⟨e, he, rfl⟩ := List.mem_map.mp hmem
      have hnot := List.any_eq_false.mp hknown e he
      simp at hnot

theorem Tracks.set {o : Obj} {r : Row} (h : o.Tracks r) (attr : String) (v : Value) :
    (o.set attr v).Tracks r := by
  have hvalue {a : String} (ha : attr ≠ a) :
      (o.set attr v).values.getD a .null = o.values.getD a .null := by
    rw [Obj.set, Options.getD_set, if_neg ha]
  rcases o.changes_set attr v with ⟨hknown, hchanges⟩ | ⟨hnew, hchanges⟩
  · refine ⟨fun a ha => ?_, fun a before hmem => ?_⟩
    · rw [hchanges] at ha
      have hne : attr ≠ a := fun heq => ha (heq ▸ hknown)
      rw [hvalue hne]
      exact h.unchanged a ha
    · rw [hchanges] at hmem
      exact h.changed a before hmem
  · refine ⟨fun a ha => ?_, fun a before hmem => ?_⟩
    · rw [hchanges, List.map_append, List.mem_append, not_or] at ha
      have hne : attr ≠ a := fun heq => ha.2 (by simp [heq])
      rw [hvalue hne]
      exact h.unchanged a ha.1
    · rw [hchanges] at hmem
      rcases List.mem_append.mp hmem with hmem | hmem
      · exact h.changed a before hmem
      · -- the value from before the first change is the one that agreed
        obtain ⟨rfl, hbefore⟩ := Prod.mk.inj (List.mem_singleton.mp hmem)
        have hvalue : o.values.getD a .null = before := by rw [Options.getD, ← hbefore]; rfl
        rw [← hvalue]
        exact h.unchanged a hnew

/-- An attribute without a net change agrees with the row. -/
theorem Tracks.agrees {o : Obj} {r : Row} (h : o.Tracks r) {a : String} (ha : a ∉ o.netChanges) :
    (o.values.getD a .null).Agrees (r.values.getD a .null) := by
  by_cases hchanged : a ∈ o.changes.map (·.1)
  · obtain ⟨change, hmem, rfl⟩ := List.mem_map.mp hchanged
    have hdiffers : o.differs change = false := by
      rw [Bool.eq_false_iff]
      exact fun hd => ha (List.mem_map_of_mem (List.mem_filter.mpr ⟨hmem, hd⟩))
    rcases change with ⟨a, _ | before⟩
    · simp [differs] at hdiffers
    · cases hnow : o.values.get? a with
      | none => simp [differs, hnow] at hdiffers
      | some now =>
          have hsame : now.same before = true := by simpa [differs, hnow] using hdiffers
          have hvalue : o.values.getD a .null = now := by rw [Options.getD, hnow]; rfl
          rw [hvalue]
          exact Value.Agrees.of_same hsame (h.changed a before hmem)
  · exact h.unchanged a hchanged

theorem Tracks.shows {o : Obj} {r : Row} (h : o.Tracks r) (hnet : o.netChanges = []) :
    o.Shows r := by
  intro a
  exact h.agrees (by rw [hnet]; exact List.not_mem_nil)

/-- Once the net changes are in the row, the object shows it. -/
theorem shows_assigned {o : Obj} {r : Row} (h : o.Tracks r ∨ o.Shows r) (table : String)
    (key : Value) : o.Shows ⟨table, key, o.assigned o.netChanges r⟩ := by
  intro a
  have hvalue : (o.assigned o.netChanges r).getD a .null =
      if a ∈ o.netChanges then o.values.getD a .null else r.values.getD a .null :=
    Options.getD_assign (fun a => o.values.getD a .null) o.netChanges r.values a .null
  dsimp only
  rw [hvalue]
  split
  · exact Value.Agrees.refl _
  · next hnet =>
    rcases h with h | h
    · exact h.agrees hnet
    · exact h a

/-- What holds of every object of a class whose rows have the key `id`, in a session in which
nothing was rolled back. -/
structure Regular (name : String) (t : Table) (o : Obj) : Prop where
  entity : o.entity = name
  present : o.expired = false
  names : ∀ a, a ∉ t.attrs → o.values.get? a = none
  label : o.label.IsId
  keyed : ∀ k, o.key = some k → k = o.label ∧ "id" ∉ o.changes.map (·.1)
  stored : o.standing = .stored → o.key.isSome = true
  calm : o.modified = false → o.changes = []

namespace Regular

variable {name : String} {t : Table} {o : Obj}

theorem key_eq (h : o.Regular name t) (hstored : o.standing = .stored) : o.key = some o.label := by
  obtain ⟨k, hk⟩ := Option.isSome_iff_exists.mp (h.stored hstored)
  rw [hk, (h.keyed k hk).1]

/-- Setting an attribute of the class, apart from the id. -/
theorem set (h : o.Regular name t) {attr : String} (value : Value) (hattr : attr ∈ t.attrs)
    (hne : attr ≠ "id") : (o.set attr value).Regular name t where
  entity := h.entity
  present := h.present
  names a ha := by
    have hother : attr ≠ a := fun heq => ha (heq ▸ hattr)
    rw [Obj.set, Options.get?_set, if_neg hother]
    exact h.names a ha
  label := by
    rw [o.label_set value hne]
    exact h.label
  keyed k hk := by
    obtain ⟨rfl, hunset⟩ := h.keyed k hk
    refine ⟨(o.label_set value hne).symm, ?_⟩
    unfold Obj.set
    dsimp only
    split
    · exact hunset
    · rw [List.map_append, List.mem_append, not_or]
      exact ⟨hunset, by simpa using hne.symm⟩
  stored := h.stored
  calm hcalm := by cases hcalm

/-- An object that does not count as modified shows its row. -/
theorem shows (h : o.Regular name t) {r : Row} (htracks : o.Tracks r)
    (hmodified : o.isModified = false) : o.Shows r := by
  refine htracks.shows ?_
  cases hm : o.modified with
  | false => rw [netChanges, h.calm hm, List.filter_nil, List.map_nil]
  | true =>
      rw [isModified, hm, Bool.true_and, Bool.not_eq_false'] at hmodified
      exact List.isEmpty_iff.mp hmodified

end Regular

end Obj

end Typeahead
