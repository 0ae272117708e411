import Mathlib.Data.List.Perm.Basic
import Typeahead.Proofs.Listening.Classes

/-!
# All changes are reported

Unless a new object takes over the row of one that is removed, listeners hear of exactly the
changes of a flush, each of them once, table by table.
-/

namespace Typeahead

/-- A list taken apart by a key, with the keys in any order. -/
theorem flatMap_filter_perm {α κ : Type} [DecidableEq κ] (key : α → κ) {keys : List κ}
    (hkeys : keys.Nodup) {xs : List α} (hxs : ∀ x ∈ xs, key x ∈ keys) :
    (keys.flatMap fun k => xs.filter fun x => key x == k).Perm xs := by
  induction keys generalizing xs with
  | nil =>
      obtain rfl : xs = [] := List.eq_nil_iff_forall_not_mem.mpr fun x hx =>
        absurd (hxs x hx) List.not_mem_nil
      exact List.Perm.refl _
  | cons k keys ih =>
      obtain ⟨hk, hkeys⟩ := List.nodup_cons.mp hkeys
      have hothers : (keys.flatMap fun l => xs.filter fun x => key x == l) =
          keys.flatMap fun l => (xs.filter fun x => !(key x == k)).filter fun x => key x == l := by
        refine List.flatMap_congr fun l hl => ?_
        rw [List.filter_filter]
        refine List.filter_congr fun x _ => ?_
        by_cases hx : key x = l
        · have hne : l ≠ k := fun heq => hk (heq ▸ hl)
          simp [hx, hne]
        · simp [hx]
      have hrest : (keys.flatMap fun l =>
          (xs.filter fun x => !(key x == k)).filter fun x => key x == l).Perm
            (xs.filter fun x => !(key x == k)) := ih hkeys fun x hx => by
        obtain ⟨hx, hne⟩ := List.mem_filter.mp hx
        exact (List.mem_cons.mp (hxs x hx)).resolve_left (by simpa using hne)
      rw [List.flatMap_cons, hothers]
      exact (hrest.append_left _).trans (List.filter_append_perm _ xs)

namespace Surroundings

open Session

/-- In a flush of the session a new object takes over the row of one that is removed. -/
def TakesOver (c : Surroundings) (s : Session) : Prop :=
  ∃ o ∈ s.objectsOf s.fresh, ∃ d ∈ s.objectsOf s.marked, c.takesRowOf o d = true

variable {c : Surroundings} {s : Session}

/-- Without rows taken over, a plan has what is new, what has changed and what is removed. -/
theorem planFor_eq_of_not_takesOver (h : ¬ c.TakesOver s) (base : String) :
    c.planFor s base =
      { inserted := ((s.objectsOf s.fresh).filter fun o =>
          c.catalog.baseName o.entity == base).map (·.id)
        replacing := []
        changed := (Obj.byKey (s.dirty.filter fun o =>
          c.catalog.baseName o.entity == base)).map (·.id)
        removed := (Obj.byKey ((s.objectsOf s.marked).filter fun o =>
          c.catalog.baseName o.entity == base)).map (·.id) } := by
  have hkeeps : ∀ o ∈ s.objectsOf s.fresh, ∀ d ∈ s.objectsOf s.marked,
      c.takesRowOf o d = false := fun o ho d hd => by
    rw [Bool.eq_false_iff]
    exact fun htakes => h ⟨o, ho, d, hd, htakes⟩
  have hfree : ∀ o ∈ (s.objectsOf s.fresh).filter fun o => c.catalog.baseName o.entity == base,
      ((s.objectsOf s.marked).filter fun o => c.catalog.baseName o.entity == base).any
        (c.takesRowOf o) = false := fun o ho => by
    rw [List.any_eq_false]
    intro d hd
    rw [hkeeps o (List.mem_filter.mp ho).1 d (List.mem_filter.mp hd).1]
    exact Bool.false_ne_true
  have hleft : ∀ d ∈ (s.objectsOf s.marked).filter fun o => c.catalog.baseName o.entity == base,
      (((s.objectsOf s.fresh).filter fun o => c.catalog.baseName o.entity == base).any
        fun o => c.takesRowOf o d) = false := fun d hd => by
    rw [List.any_eq_false]
    intro o ho
    rw [hkeeps o (List.mem_filter.mp ho).1 d (List.mem_filter.mp hd).1]
    exact Bool.false_ne_true
  unfold planFor
  dsimp only
  congr 1
  · congr 1
    exact List.filter_eq_self.mpr fun o ho => by rw [hfree o ho]; rfl
  · rw [List.filter_eq_nil_iff.mpr fun o ho => by rw [hfree o ho]; exact Bool.false_ne_true]
    rfl
  · congr 2
    exact List.filter_eq_self.mpr fun d hd => by rw [hleft d hd]; rfl

theorem mem_of_mem_objectsOf (ids : List Nat) {o : Obj} (ho : o ∈ s.objectsOf ids) :
    o ∈ s.objects := (mem_of_object?_eq_some (mem_objectsOf.mp ho).2).1

/-- The numbers that wait are those of objects, so none is lost. -/
theorem map_objectsOf {ids : List Nat} (h : ∀ id ∈ ids, id ∈ s.objects.map (·.id)) :
    (s.objectsOf ids).map (·.id) = ids := by
  induction ids with
  | nil => rfl
  | cons id ids ih =>
      have hrest := ih fun other hother => h other (List.mem_cons_of_mem id hother)
      rw [objectsOf, List.filterMap_cons]
      cases ho : s.object? id with
      | none =>
          obtain ⟨o, homem, hid⟩ := List.mem_map.mp (h id List.mem_cons_self)
          have hnone := List.find?_eq_none.mp ho o homem
          simp [hid] at hnone
      | some o =>
          rw [← (mem_of_object?_eq_some ho).2]
          exact congrArg (o.id :: ·) hrest

/-- Objects of the session, table by table. -/
theorem flatMap_baseNames_perm (hcatalog : c.catalog.WellDeclared) (hs : s.Seated c.catalog)
    {os : List Obj} (hos : ∀ o ∈ os, o ∈ s.objects) (f : Obj → Action × Nat) :
    (c.catalog.baseNames.flatMap fun base =>
      (os.filter fun o => c.catalog.baseName o.entity == base).map f).Perm (os.map f) := by
  rw [← List.map_flatMap]
  exact (flatMap_filter_perm (fun o : Obj => c.catalog.baseName o.entity) hcatalog.nodup_baseNames
    fun o ho => hs.bases o (hos o ho)).map f

/-- What is stored is new or has changed. -/
theorem saved_perm (hcatalog : c.catalog.WellDeclared) (hs : s.Seated c.catalog)
    (h : ¬ c.TakesOver s) : ((c.plans s).flatMap TablePlan.saved).Perm
      ((s.objectsOf s.fresh).map (fun o => (.index, o.id)) ++
        s.dirty.map fun o => (.update, o.id)) := by
  have hplan (base : String) : (c.planFor s base).saved.Perm
      (((s.objectsOf s.fresh).filter fun o => c.catalog.baseName o.entity == base).map
          (fun o => (.index, o.id)) ++
        (s.dirty.filter fun o => c.catalog.baseName o.entity == base).map
          fun o => (.update, o.id)) := by
    rw [planFor_eq_of_not_takesOver h]
    simp only [TablePlan.saved, List.map_nil, List.append_nil, List.map_map]
    exact ((Obj.byKey_perm _).map _).append_left _
  have hfresh := flatMap_baseNames_perm hcatalog hs fun _ ho =>
    mem_of_mem_objectsOf s.fresh ho
  have hdirty := flatMap_baseNames_perm hcatalog hs fun o (ho : o ∈ s.dirty) =>
    (List.mem_filter.mp ho).1
  rw [plans, List.flatMap_map]
  refine (List.Perm.flatMap_left _ fun base _ => hplan base).trans ?_
  exact (List.flatMap_append_perm _ _ _).symm.trans ((hfresh _).append (hdirty _))

theorem gone_perm (hcatalog : c.catalog.WellDeclared) (hs : s.Seated c.catalog)
    (h : ¬ c.TakesOver s) : ((c.plans s).flatMap TablePlan.gone).Perm
      ((s.objectsOf s.marked).map fun o => (.delete, o.id)) := by
  have hplan (base : String) : (c.planFor s base).gone.Perm
      (((s.objectsOf s.marked).filter fun o => c.catalog.baseName o.entity == base).map
        fun o => (.delete, o.id)) := by
    rw [planFor_eq_of_not_takesOver h]
    simp only [TablePlan.gone, List.map_map]
    exact (Obj.byKey_perm _).map _
  have hmarked := flatMap_baseNames_perm hcatalog hs fun _ ho =>
    mem_of_mem_objectsOf s.marked ho
  rw [plans, List.flatMap_map]
  exact (List.Perm.flatMap_left _ fun base _ => hplan base).trans (hmarked _)

/-- The changes of a flush, read off the objects; an update without changes is passed over. -/
theorem filter_isDue_changes (hs : s.Seated c.catalog) :
    (((s.objectsOf s.fresh).map fun o => (Action.index, o.id)) ++
      (s.dirty.map fun o => (Action.update, o.id)) ++
      (s.objectsOf s.marked).map fun o => (Action.delete, o.id)).filter
        (fun change => s.isDue change.1 change.2) = s.changes := by
  have hdue {action : Action} (haction : action ≠ .update) {ids : List Nat}
      (hids : ∀ id ∈ ids, id ∈ s.fresh ++ s.marked) :
      ((s.objectsOf ids).map fun o => (action, o.id)).filter
        (fun change => s.isDue change.1 change.2) = ids.map fun id => (action, id) := by
    have hall : ∀ change ∈ (s.objectsOf ids).map fun o => (action, o.id),
        s.isDue change.1 change.2 = true := by
      intro change hchange
      obtain ⟨o, _, rfl⟩ := List.mem_map.mp hchange
      simp [isDue, haction]
    conv_rhs => rw [← map_objectsOf fun id hid => hs.known id (hids id hid)]
    rw [List.filter_eq_self.mpr hall, List.map_map]
    rfl
  rw [List.filter_append, List.filter_append, changes,
    hdue (by decide) fun id hid => List.mem_append_left _ hid,
    hdue (by decide) fun id hid => List.mem_append_right _ hid, ← filter_isDue_dirty hs.sound,
    List.filter_map, List.filter_map, List.map_map]
  rfl

/-- Listeners hear of every change of a flush once, in the order of the tables. -/
theorem reported_perm (hcatalog : c.catalog.WellDeclared) (hs : s.Seated c.catalog)
    (h : ¬ c.TakesOver s) : (c.reported s).Perm s.changes := by
  rw [← filter_isDue_changes hs]
  exact ((saved_perm hcatalog hs h).append (gone_perm hcatalog hs h)).filter _

end Surroundings

end Typeahead
