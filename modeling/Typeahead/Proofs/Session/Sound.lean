import Mathlib.Data.List.Nodup
import Mathlib.Data.List.Range
import Typeahead.Proofs.Session.Object
import Typeahead.Session.Boundary

/-!
# Sound sessions

A session is sound when its objects are numbered in the order they came, changed
attributes have values, an object that was never stored has no key, and the objects that
wait to be stored are pending.  The operations on sessions keep this.
-/

namespace Typeahead

/-- What holds of every object of a session whose new objects are `fresh`. -/
structure Obj.Sound (fresh : List Nat) (o : Obj) : Prop where
  tracked : o.Tracked
  keyless : o.standing = .pending ∨ o.standing = .loose → o.key = none
  pending : o.id ∈ fresh → o.standing = .pending

theorem Obj.Sound.mono {fresh fewer : List Nat} {o : Obj} (h : o.Sound fresh)
    (hfewer : ∀ id ∈ fewer, id ∈ fresh) : o.Sound fewer where
  tracked := h.tracked
  keyless := h.keyless
  pending hid := h.pending (hfewer o.id hid)

theorem Obj.Carries.sound {ids fresh : List Nat} {o p : Obj} (h : Obj.Carries ids o p)
    (ho : o.Sound fresh) : p.Sound fresh where
  tracked := h.tracked ho.tracked
  keyless hp := by
    rw [h.standing] at hp
    rw [h.key]
    exact ho.keyless hp
  pending hid := by
    rw [h.id] at hid
    rw [h.standing]
    exact ho.pending hid

namespace Session

/-- The objects are numbered in order and sound for a list of new ones. -/
structure SoundFor (fresh : List Nat) (s : Session) : Prop where
  numbered : s.objects.map (·.id) = List.range s.objects.length
  objects : ∀ o ∈ s.objects, o.Sound fresh

/-- The objects are numbered in order and sound for the new ones of the session. -/
abbrev Sound (s : Session) : Prop := SoundFor s.fresh s

theorem sound_empty : empty.Sound := ⟨rfl, fun _ h => absurd h List.not_mem_nil⟩

theorem mem_of_object?_eq_some {s : Session} {id : Nat} {o : Obj} (h : s.object? id = some o) :
    o ∈ s.objects ∧ o.id = id := by
  refine ⟨List.mem_of_find?_eq_some h, ?_⟩
  have hid := List.find?_some h
  simpa using hid

namespace SoundFor

variable {fresh : List Nat} {s t : Session}

theorem nodup (h : SoundFor fresh s) : (s.objects.map (·.id)).Nodup := by
  rw [h.numbered]
  exact List.nodup_range

theorem eq_of_id_eq (h : SoundFor fresh s) {o p : Obj} (ho : o ∈ s.objects)
    (hp : p ∈ s.objects) (hid : o.id = p.id) : o = p :=
  List.inj_on_of_nodup_map h.nodup ho hp hid

theorem object?_eq (h : SoundFor fresh s) {o : Obj} (ho : o ∈ s.objects) :
    s.object? o.id = some o := by
  cases hfind : s.object? o.id with
  | none =>
      have hnone := List.find?_eq_none.mp hfind o ho
      simp at hnone
  | some p =>
      obtain ⟨hp, hid⟩ := mem_of_object?_eq_some hfind
      rw [h.eq_of_id_eq hp ho hid]

/-- Only the objects of a session count. -/
theorem of_objects_eq (h : SoundFor fresh s) (hobjects : t.objects = s.objects) :
    SoundFor fresh t := by
  refine ⟨?_, ?_⟩
  · rw [hobjects]
    exact h.numbered
  · rw [hobjects]
    exact h.objects

theorem mono {fewer : List Nat} (h : SoundFor fresh s) (hfewer : ∀ id ∈ fewer, id ∈ fresh) :
    SoundFor fewer s :=
  ⟨h.numbered, fun o ho => (h.objects o ho).mono hfewer⟩

/-- Every object may be changed into a sound one of the same number. -/
theorem map {fresh' : List Nat} (h : SoundFor fresh s) {f : Obj → Obj}
    (hf : ∀ o ∈ s.objects, (f o).id = o.id ∧ (f o).Sound fresh')
    (hobjects : t.objects = s.objects.map f) : SoundFor fresh' t := by
  refine ⟨?_, ?_⟩
  · rw [hobjects, List.map_map, List.length_map, ← h.numbered]
    exact List.map_congr_left fun o ho => (hf o ho).1
  · intro p hp
    rw [hobjects] at hp
    obtain ⟨o, ho, rfl⟩ := List.mem_map.mp hp
    exact (hf o ho).2

theorem modifyObject (h : SoundFor fresh s) {id : Nat} {f : Obj → Obj}
    (hf : ∀ o ∈ s.objects, o.id = id → (f o).id = o.id ∧ (f o).Sound fresh) :
    SoundFor fresh (s.modifyObject id f) := by
  refine h.map (fun o ho => ?_) rfl
  by_cases hid : o.id = id
  · simpa [hid] using hf o ho hid
  · simpa [hid] using h.objects o ho

/-- Replacing an object by a sound one of its number. -/
theorem put (h : SoundFor fresh s) {p : Obj} (hp : p.Sound fresh) :
    SoundFor fresh (s.modifyObject p.id fun _ => p) :=
  h.modifyObject fun _ _ hid => ⟨hid.symm, hp⟩

/-- A new object takes the next number. -/
theorem append (h : SoundFor fresh s) {o : Obj} {fresh' : List Nat}
    (hold : ∀ p ∈ s.objects, p.Sound fresh') (hid : o.id = s.objects.length)
    (ho : o.Sound fresh') (hobjects : t.objects = s.objects ++ [o]) : SoundFor fresh' t := by
  refine ⟨?_, ?_⟩
  · rw [hobjects, List.map_append, h.numbered, List.length_append]
    simp [List.range_succ, hid]
  · intro p hp
    rw [hobjects] at hp
    rcases List.mem_append.mp hp with hp | hp
    · exact hold p hp
    · rw [List.mem_singleton.mp hp]
      exact ho

theorem id_lt (h : SoundFor fresh s) {o : Obj} (ho : o ∈ s.objects) :
    o.id < s.objects.length := by
  have hmem : o.id ∈ s.objects.map (·.id) := List.mem_map_of_mem ho
  rw [h.numbered] at hmem
  exact List.mem_range.mp hmem

end SoundFor

/-! Undoing a transaction, storing and letting go of objects. -/

theorem sound_forgotten {o : Obj} (h : o.Tracked) (t : Transaction) :
    (forgotten t o).id = o.id ∧ (forgotten t o).Sound [] := by
  unfold forgotten
  cases keyBefore? t o with
  | none => exact ⟨rfl, h, fun _ => rfl, fun hid => absurd hid List.not_mem_nil⟩
  | some key =>
      refine ⟨rfl, h, fun hstanding => ?_, fun hid => absurd hid List.not_mem_nil⟩
      rcases hstanding with hstanding | hstanding <;> cases hstanding

theorem sound_returned {fresh : List Nat} {o : Obj} (h : o.Sound fresh) (s : Session)
    (t : Transaction) : (s.returned t o).id = o.id ∧ (s.returned t o).Sound [] := by
  have hstored (key : Option Value) :
      ({ o with standing := .stored, key := key } : Obj).Sound [] := by
    refine ⟨h.tracked, fun hstanding => ?_, fun hid => absurd hid List.not_mem_nil⟩
    rcases hstanding with hstanding | hstanding <;> cases hstanding
  unfold returned
  cases keyBefore? t o with
  | some key => exact ⟨rfl, hstored key⟩
  | none =>
      dsimp only
      split
      · exact ⟨rfl, hstored o.key⟩
      · exact ⟨rfl, h.mono fun id hid => absurd hid List.not_mem_nil⟩

theorem sound_expire {o : Obj} (h : o.Sound []) (attrs : List String) :
    (o.expire attrs).Sound [] where
  tracked := Obj.tracked_of_changes_eq_nil rfl
  keyless := h.keyless
  pending hid := absurd hid List.not_mem_nil

theorem sound_restoredObject {fresh : List Nat} {o : Obj} (h : o.Sound fresh)
    (c : Surroundings) (t : Transaction) (nested : Bool) (s : Session) :
    (restoredObject c t nested s o).id = o.id ∧ (restoredObject c t nested s o).Sound [] := by
  unfold restoredObject
  split
  · exact sound_forgotten h.tracked t
  · obtain ⟨hid, hsound⟩ := sound_returned h s t
    dsimp only
    split
    · exact ⟨hid, sound_expire hsound _⟩
    · exact ⟨hid, hsound⟩

theorem sound_restore {s u : Session} (h : s.Sound) (c : Surroundings) (t : Transaction)
    (nested : Bool) (hobjects : u.objects = s.objects) :
    (restore c t nested u).Sound := by
  refine h.map (f := restoredObject c t nested u) (fun o ho => ?_) ?_
  · exact sound_restoredObject (h.objects o ho) c t nested u
  · rw [← hobjects]
    rfl

theorem sound_breakInnermost {s : Session} (h : s.Sound) (c : Surroundings) :
    (breakInnermost c s).Sound := by
  unfold breakInnermost
  cases s.stack with
  | nil => exact h
  | cons t outer =>
      have hrestored := sound_restore (u := { s with rows := t.before }) h c t (!outer.isEmpty) rfl
      exact hrestored.of_objects_eq rfl

theorem objects_pop (s : Session) : s.pop.objects = s.objects ∧ s.pop.fresh = s.fresh := by
  unfold pop
  rcases s.stack with _ | ⟨t, _ | ⟨u, rest⟩⟩
  · exact ⟨rfl, rfl⟩
  · exact ⟨rfl, rfl⟩
  · exact ⟨rfl, rfl⟩

theorem sound_pop {s : Session} (h : s.Sound) : s.pop.Sound := by
  obtain ⟨hobjects, hfresh⟩ := objects_pop s
  rw [Sound, hfresh]
  exact h.of_objects_eq hobjects

theorem sound_undoInnermost {s : Session} (h : s.Sound) (c : Surroundings) :
    (s.undoInnermost c).Sound := by
  unfold undoInnermost
  cases hstack : s.stack with
  | nil => exact h
  | cons t outer =>
      have hundone := sound_restore (u := { s with rows := t.before }) h c t (!outer.isEmpty) rfl
      have hrestored := sound_restore (u := s) h c t (!outer.isEmpty) rfl
      refine sound_pop ?_
      cases t.state with
      | active => exact hundone.of_objects_eq rfl
      | broken =>
          dsimp only
          split
          · exact h.of_objects_eq rfl
          · exact hrestored.of_objects_eq rfl
      | committed =>
          dsimp only
          split
          · exact h.of_objects_eq rfl
          · exact hrestored.of_objects_eq rfl

theorem sound_close {s : Session} (h : s.Sound) : s.close.Sound := by
  refine h.map (f := released) (fun o ho => ?_) rfl
  have hold := h.objects o ho
  unfold released
  split
  · refine ⟨rfl, hold.tracked, fun hstanding => ?_, fun hid => absurd hid List.not_mem_nil⟩
    rcases hstanding with hstanding | hstanding <;> cases hstanding
  · next hpending =>
    exact ⟨rfl, hold.tracked, fun _ => hold.keyless (Or.inl hpending),
      fun hid => absurd hid List.not_mem_nil⟩
  · exact ⟨rfl, hold.mono fun id hid => absurd hid List.not_mem_nil⟩

end Session

end Typeahead
