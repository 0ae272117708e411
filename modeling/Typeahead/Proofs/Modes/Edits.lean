import Typeahead.Proofs.Modes.Flushing

/-!
# Changes since the last flush

An object remembers what its attributes were before they were assigned, and it does so up to the
next flush.  So it counts as changed exactly if an attribute that was assigned differs from what it
was in the session that the last flush left: `Obj.Departs`.
-/

namespace Typeahead

namespace Obj

/-- Assigning attributes makes `o` of `p`: what was not assigned has the very same value, and of
what was the value before is known. -/
structure Edits (p o : Obj) : Prop where
  kept : ∀ a, a ∉ o.changes.map (·.1) → o.values.get? a = p.values.get? a
  before : ∀ change ∈ o.changes, change.2 = p.values.get? change.1

/-- An attribute was assigned that does not have an equal value from before. -/
def Departs (p o : Obj) : Prop :=
  ∃ a ∈ o.changes.map (·.1), ∀ before ∈ p.values.get? a, ∀ now ∈ o.values.get? a,
    now.same before = false

instance (p o : Obj) : Decidable (p.Departs o) :=
  inferInstanceAs (Decidable (∃ a ∈ o.changes.map (·.1), ∀ before ∈ p.values.get? a,
    ∀ now ∈ o.values.get? a, now.same before = false))

theorem edits_of_settled {o : Obj} (h : o.changes = []) : o.Edits o where
  kept _ _ := rfl
  before change hchange := by
    rw [h] at hchange
    exact absurd hchange List.not_mem_nil

namespace Edits

variable {p o : Obj}

theorem set (h : p.Edits o) (attr : String) (v : Value) : p.Edits (o.set attr v) := by
  have hvalue {a : String} (ha : attr ≠ a) : (o.set attr v).values.get? a = o.values.get? a := by
    rw [Obj.set, Options.get?_set, if_neg ha]
  rcases o.changes_set attr v with ⟨hknown, hchanges⟩ | ⟨hnew, hchanges⟩
  · refine ⟨fun a ha => ?_, by rw [hchanges]; exact h.before⟩
    rw [hchanges] at ha
    have hne : attr ≠ a := fun heq => ha (heq ▸ hknown)
    rw [hvalue hne, h.kept a ha]
  · refine ⟨fun a ha => ?_, fun change hchange => ?_⟩
    · rw [hchanges, List.map_append, List.mem_append, not_or] at ha
      have hne : attr ≠ a := fun heq => ha.2 (by simp [heq])
      rw [hvalue hne, h.kept a ha.1]
    · rw [hchanges] at hchange
      rcases List.mem_append.mp hchange with hold | hadded
      · exact h.before change hold
      · rw [List.mem_singleton.mp hadded]
        exact h.kept attr hnew

/-- An attribute that was assigned differs from what is remembered of it exactly if it differs from
what it was. -/
theorem differs_iff (h : p.Edits o) {change : String × Option Value}
    (hchange : change ∈ o.changes) :
    o.differs change = true ↔ ∀ before ∈ p.values.get? change.1,
      ∀ now ∈ o.values.get? change.1, now.same before = false := by
  rw [← h.before change hchange]
  unfold differs
  cases change.2 with
  | none => simp
  | some before =>
      cases o.values.get? change.1 with
      | none => simp
      | some now => simp

/-- An object counts as changed exactly if it departs from what it was. -/
theorem isModified_iff (h : p.Edits o) (hcalm : o.modified = false → o.changes = []) :
    o.isModified = true ↔ p.Departs o := by
  have hnet : o.isModified = true ↔ ∃ change ∈ o.changes, o.differs change = true := by
    cases hmodified : o.modified with
    | false => simp [isModified, hmodified, hcalm hmodified]
    | true => simp [isModified, hmodified, netChanges, List.filter_eq_nil_iff]
  rw [hnet]
  constructor
  · rintro ⟨change, hchange, hdiffers⟩
    exact ⟨change.1, List.mem_map_of_mem hchange, (h.differs_iff hchange).mp hdiffers⟩
  · rintro ⟨a, ha, hdiffers⟩
    obtain ⟨change, hchange, rfl⟩ := List.mem_map.mp ha
    exact ⟨change, hchange, (h.differs_iff hchange).mpr hdiffers⟩

end Edits

end Obj

namespace Session

/-- Every live object was made by assigning attributes of one from before. -/
def Recalls (b s : Session) : Prop :=
  ∀ o, s.IsLive o → ∃ p, b.object? o.id = some p ∧ p.Edits o

variable {name : String} {t : Table} {b s w : Session}

theorem Recalls.mono (h : Recalls b s) (hlive : ∀ o, w.IsLive o → s.IsLive o) : Recalls b w :=
  fun o ho => h o (hlive o ho)

theorem Recalls.begin (h : Recalls b s) : Recalls b s.begin :=
  h.mono fun o ho => by rwa [IsLive, begin_objects, begin_marked] at ho

/-- After a flush nothing is left to remember. -/
theorem recalls_of_isClean (hs : s.Regular name t) (hclean : s.isClean = true) : Recalls s s := by
  intro o ho
  have hsettled := (hs.objects o ho.1).calm (ho.modified_eq_false hclean)
  exact ⟨o, hs.sound.object?_eq ho.1, Obj.edits_of_settled hsettled⟩

theorem Recalls.set (h : Recalls b s) {o : Obj} (ho : s.object? o.id = some o)
    (attr : String) (value : Value) :
    Recalls b (s.modifyObject o.id fun _ => o.set attr value) := by
  rintro q ⟨hq, hstored, hnot⟩
  rcases mem_put (p := o.set attr value) hq with rfl | ⟨hold, _⟩
  · obtain ⟨p, hp, hedits⟩ := h o ⟨(mem_of_object?_eq_some ho).1, hstored, hnot⟩
    exact ⟨p, hp, hedits.set attr value⟩
  · exact h q ⟨hold, hstored, hnot⟩

end Session

namespace Surroundings

open Session

variable {c : Surroundings} {name : String} {t : Table} {b s : Session}

/-- A new object is not live before it is flushed. -/
theorem recalls_add (htable : c.catalog.table? name = some t) (h : Recalls b s) (object : String)
    (values : Options) : Recalls b (c.add object name values s).2 := by
  rcases add_cases htable object values s with heq | ⟨_, heq⟩
  · rw [heq]
    exact h
  · rw [heq]
    refine h.begin.mono fun o ⟨ho, hstored, hnot⟩ => ⟨?_, hstored, hnot⟩
    rw [begin_objects]
    rcases List.mem_append.mp ho with ho | ho
    · exact ho
    · rw [List.mem_singleton.mp ho] at hstored
      cases hstored

theorem recalls_set (htable : c.catalog.table? name = some t)
    (hs : ∀ o ∈ s.objects, o.entity = name ∧ o.expired = false) (h : Recalls b s)
    (object : String) {attr : String} (value : Value) (hattr : attr ∈ t.attrs) :
    Recalls b (c.set object attr value s).2 := by
  rcases set_cases htable hs object value hattr with heq | ⟨w, o, hw, ho, heq⟩
  · rw [heq]
    exact h
  · rw [heq]
    rcases hw with rfl | rfl
    · exact h.set ho attr value
    · exact h.begin.set ho attr value

/-- A removed object is not live any more. -/
theorem recalls_delete (c : Surroundings) (h : Recalls b s) (object : String) :
    Recalls b (c.delete object s).2 := by
  rcases c.delete_cases object s with heq | heq | ⟨o, ho, _, _, heq⟩
  · rw [heq]
    exact h
  · rw [heq]
    exact h.begin
  · rw [heq]
    refine h.begin.mono fun q ⟨hq, hstored, hnot⟩ => ?_
    rcases mem_put (p := { o with standing := .stored }) hq with rfl | ⟨hold, _⟩
    · exact absurd (List.mem_append_right _ (List.mem_singleton_self _)) hnot
    · exact ⟨hold, hstored, fun hmark => hnot (List.mem_append_left _ hmark)⟩

end Surroundings

end Typeahead
