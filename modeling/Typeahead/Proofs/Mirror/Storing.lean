import Typeahead.Proofs.Mirror.Inserting

/-!
# The rows after a flush

The objects of a flush and what they do to the rows of their table, from its beginning until
the writes are captured.  New objects with the key of a removed one take over its row, the
other ones, the newcomers, get rows of their own.
-/

namespace Typeahead

namespace Session

/-- The objects that wait to be stored. -/
def pending (s : Session) : List Obj := s.objectsOf s.fresh

/-- The objects that are about to be removed. -/
def doomed (s : Session) : List Obj := s.objectsOf s.marked

/-- The new objects that do not have the id of one that is about to be removed. -/
def newcomers (s : Session) : List Obj :=
  s.pending.filter fun o => !s.doomed.any fun d => d.label.same o.label

/-- A stored object that is not about to be removed. -/
def IsLive (s : Session) (o : Obj) : Prop :=
  o ∈ s.objects ∧ o.standing = .stored ∧ o.id ∉ s.marked

/-- What holds of a session with the objects of one class, none of which was ever rolled back.
Every live object has a row of its own. -/
structure Regular (name : String) (t : Table) (s : Session) : Prop where
  sound : s.Sound
  rows : Row.Tabled t.name s.rows
  objects : ∀ o ∈ s.objects, o.Regular name t
  fresh : s.fresh.Nodup
  known : ∀ id ∈ s.fresh ++ s.marked, id < s.objects.length
  marked : ∀ o ∈ s.doomed, o.standing = .stored
  distinct : ∀ o ∈ s.objects, ∀ p ∈ s.objects, o.standing = .stored → p.standing = .stored →
    o.label.same p.label = true → o = p
  lives : ∀ o, s.IsLive o → ∃ r, Row.find? s.rows t.name o.label = some r ∧ o.Tracks r

theorem mem_objectsOf {s : Session} {ids : List Nat} {o : Obj} :
    o ∈ s.objectsOf ids ↔ o.id ∈ ids ∧ s.object? o.id = some o := by
  constructor
  · intro h
    obtain ⟨id, hid, ho⟩ := List.mem_filterMap.mp h
    obtain rfl := (mem_of_object?_eq_some ho).2
    exact ⟨hid, ho⟩
  · rintro ⟨hid, ho⟩
    exact List.mem_filterMap.mpr ⟨o.id, hid, ho⟩

theorem map_objectsOf_sublist (s : Session) (ids : List Nat) :
    ((s.objectsOf ids).map (·.id)).Sublist ids := by
  induction ids with
  | nil => exact List.Sublist.slnil
  | cons id ids ih =>
      rw [objectsOf, List.filterMap_cons]
      cases ho : s.object? id with
      | none => exact ih.cons id
      | some o =>
          obtain rfl := (mem_of_object?_eq_some ho).2
          exact ih.cons_cons o.id

namespace Regular

variable {name : String} {t : Table} {s : Session}

theorem newcomers_nodup (h : s.Regular name t) : (s.newcomers.map (·.id)).Nodup :=
  (((List.filter_sublist.map _).trans (s.map_objectsOf_sublist s.fresh)).nodup h.fresh)

theorem pending_spec (h : s.Regular name t) {o : Obj} (ho : o ∈ s.pending) :
    o ∈ s.objects ∧ s.object? o.id = some o ∧ o.id ∈ s.fresh ∧ o.standing = .pending ∧
      o.key = none := by
  obtain ⟨hid, hobject⟩ := mem_objectsOf.mp ho
  have hmem := (mem_of_object?_eq_some hobject).1
  have hpending := (h.sound.objects o hmem).pending hid
  exact ⟨hmem, hobject, hid, hpending, (h.sound.objects o hmem).keyless (Or.inl hpending)⟩

theorem doomed_spec (h : s.Regular name t) {o : Obj} (ho : o ∈ s.doomed) :
    o ∈ s.objects ∧ s.object? o.id = some o ∧ o.id ∈ s.marked ∧ o.standing = .stored := by
  obtain ⟨hid, hobject⟩ := mem_objectsOf.mp ho
  exact ⟨(mem_of_object?_eq_some hobject).1, hobject, hid, h.marked o ho⟩

theorem fresh_of_newcomers (h : s.Regular name t) {o : Obj} (ho : o ∈ s.newcomers) :
    o.id ∈ s.fresh :=
  (h.pending_spec (List.mem_filter.mp ho).1).2.2.1

/-- A stored object does not wait to be stored. -/
theorem stored_notMem_fresh (h : s.Regular name t) {o : Obj} (ho : o ∈ s.objects)
    (hstored : o.standing = .stored) : o.id ∉ s.fresh := by
  intro hfresh
  rw [(h.sound.objects o ho).pending hfresh] at hstored
  cases hstored

theorem stored_notMem_newcomers (h : s.Regular name t) {o : Obj} (ho : o ∈ s.objects)
    (hstored : o.standing = .stored) : o.id ∉ s.newcomers.map (·.id) := by
  intro hmem
  obtain ⟨p, hp, hid⟩ := List.mem_map.mp hmem
  exact h.stored_notMem_fresh ho hstored (hid ▸ h.fresh_of_newcomers hp)

/-- What is the same as an id that no removed object has, no removed object has either. -/
theorem doomed_apart (h : s.Regular name t) {k l : Value}
    (hk : ∀ d ∈ s.doomed, d.label.same k = false) (hlk : l.same k = true) :
    ∀ d ∈ s.doomed, d.label.same l = false := by
  intro d hd
  rw [Bool.eq_false_iff]
  intro hdl
  have hdk := hk d hd
  rw [(h.objects d (h.doomed_spec hd).1).label.trans hdl hlk] at hdk
  cases hdk

/-- A live object does not have the id of one that is about to be removed. -/
theorem live_apart (h : s.Regular name t) {o d : Obj} (ho : s.IsLive o) (hd : d ∈ s.doomed) :
    d.label.same o.label = false := by
  obtain ⟨hdmem, _, hmarked, hdstored⟩ := h.doomed_spec hd
  rw [Bool.eq_false_iff]
  intro hsame
  obtain rfl := h.distinct d hdmem o ho.1 hdstored ho.2.1 hsame
  exact ho.2.2 hmarked

theorem isLive_of_dirty {o : Obj} (ho : o ∈ s.dirty) : s.IsLive o ∧ o.modified = true := by
  obtain ⟨hmem, hdirty⟩ := List.mem_filter.mp ho
  simp only [Bool.and_eq_true, beq_iff_eq, Bool.not_eq_true', List.contains_eq_mem,
    decide_eq_false_iff_not] at hdirty
  exact ⟨⟨hmem, hdirty.1.1, hdirty.2⟩, hdirty.1.2⟩

end Regular

end Session

namespace Obj

theorem insertByKey_perm (o : Obj) (os : List Obj) : (o.insertByKey os).Perm (o :: os) := by
  induction os with
  | nil => exact List.Perm.refl _
  | cons p os ih =>
      rw [insertByKey]
      split
      · exact List.Perm.refl _
      · exact (ih.cons p).trans (List.Perm.swap o p os)

theorem byKey_perm (os : List Obj) : (byKey os).Perm os := by
  have hfold (os acc : List Obj) :
      (os.foldl (fun acc o => insertByKey o acc) acc).Perm (os ++ acc) := by
    induction os generalizing acc with
    | nil => exact List.Perm.refl _
    | cons p os ih =>
        exact (ih _).trans (((insertByKey_perm p acc).append_left os).trans List.perm_middle)
  have hperm := hfold os []
  rwa [List.append_nil] at hperm

theorem mem_byKey {os : List Obj} {o : Obj} : o ∈ byKey os ↔ o ∈ os := (byKey_perm os).mem_iff

end Obj

namespace Surroundings

open Session

variable {c : Surroundings} {name : String} {t : Table} {x : Searchable} {s u : Session}

/-- A plan with nothing to do. -/
def emptyPlan : TablePlan := ⟨[], [], [], []⟩

/-- The plan for the table of the class. -/
def planOf (s : Session) : TablePlan where
  inserted := s.newcomers.map (·.id)
  replacing := (s.pending.filter fun o => s.doomed.any fun d => d.label.same o.label).map (·.id)
  changed := (Obj.byKey s.dirty).map (·.id)
  removed := (Obj.byKey (s.doomed.filter fun d =>
    !s.pending.any fun o => d.label.same o.label)).map (·.id)

/-- The objects all belong to one table. -/
theorem planFor_eq (hc : c.Replicates name t x) (hs : s.Regular name t) (base : String) :
    c.planFor s base = if base = c.catalog.baseName name then planOf s else emptyPlan := by
  have hbase : ∀ o ∈ s.objects,
      (c.catalog.baseName o.entity == base) = decide (base = c.catalog.baseName name) := by
    intro o ho
    rw [(hs.objects o ho).entity, Bool.eq_iff_iff, beq_iff_eq, decide_eq_true_iff]
    exact eq_comm
  have hfilter (os : List Obj) (hos : ∀ o ∈ os, o ∈ s.objects) :
      os.filter (fun o => c.catalog.baseName o.entity == base) =
        if base = c.catalog.baseName name then os else [] := by
    rw [List.filter_congr fun o ho => hbase o (hos o ho)]
    by_cases h : base = c.catalog.baseName name
    · simp [h]
    · simp [h]
  have htakes : ∀ o ∈ s.pending, ∀ d ∈ s.doomed, c.takesRowOf o d = d.label.same o.label := by
    intro o ho d hd
    obtain ⟨homem, _⟩ := hs.pending_spec ho
    obtain ⟨hdmem, _, _, hdstored⟩ := hs.doomed_spec hd
    have hentity := (hs.objects o homem).entity
    rw [takesRowOf, hentity, (hs.objects d hdmem).entity, beq_self_eq_true, Bool.true_and,
      (hs.objects d hdmem).key_eq hdstored, hc.ownKey_eq hentity]
  have hpending := hfilter s.pending fun o ho => (hs.pending_spec ho).1
  have hdoomed := hfilter s.doomed fun o ho => (hs.doomed_spec ho).1
  have hdirty := hfilter s.dirty fun o ho => (List.mem_filter.mp ho).1
  unfold planFor
  dsimp only
  rw [← pending, ← doomed, hpending, hdoomed, hdirty]
  by_cases h : base = c.catalog.baseName name
  · have hany : ∀ o ∈ s.pending, s.doomed.any (c.takesRowOf o) =
        s.doomed.any fun d => d.label.same o.label := by
      intro o ho
      rw [Bool.eq_iff_iff, List.any_eq_true, List.any_eq_true]
      exact exists_congr fun d => and_congr_right fun hd => by rw [htakes o ho d hd]
    have hany' : ∀ d ∈ s.doomed, (s.pending.any fun o => c.takesRowOf o d) =
        s.pending.any fun o => d.label.same o.label := by
      intro d hd
      rw [Bool.eq_iff_iff, List.any_eq_true, List.any_eq_true]
      exact exists_congr fun o => and_congr_right fun ho => by rw [htakes o ho d hd]
    simp only [h, if_true]
    rw [planOf, newcomers, List.filter_congr hany,
      List.filter_congr fun o ho => congrArg Bool.not (hany o ho),
      List.filter_congr fun d hd => congrArg Bool.not (hany' d hd)]
  · simp only [h, if_false]
    rfl

/-- A loop over plans of which one has something to do. -/
theorem forM_map_apply {f : TablePlan → Exec Unit} {g : String → TablePlan} (base : String)
    {names : List String} (hother : ∀ n ∈ names, n ≠ base → ∀ s, f (g n) s = (.ok (), s))
    (hcount : names.count base ≤ 1) (s : Session) :
    (names.map g).forM f s = if base ∈ names then f (g base) s else (.ok (), s) := by
  induction names generalizing s with
  | nil => rfl
  | cons n names ih =>
      have hrest := ih fun m hm => hother m (List.mem_cons_of_mem n hm)
      rw [List.map_cons, Exec.forM_cons, Exec.bind_apply]
      by_cases hn : n = base
      · subst hn
        rw [List.count_cons_self] at hcount
        have hnone : n ∉ names := List.count_eq_zero.mp (by omega)
        rw [if_pos List.mem_cons_self]
        have hidle := hrest (by omega)
        simp only [if_neg hnone] at hidle
        rcases hfirst : f (g n) s with ⟨r, v⟩
        cases r with
        | ok a => exact hidle v
        | error e => rfl
      · rw [hother n List.mem_cons_self hn s]
        rw [List.count_cons_of_ne hn] at hcount
        have hmem : base ∈ n :: names ↔ base ∈ names := by
          rw [List.mem_cons, or_iff_right fun heq => hn heq.symm]
        simp only [hmem]
        exact hrest hcount s

theorem forM_plans_apply (hc : c.Replicates name t x) (hs : s.Regular name t)
    {f : TablePlan → Exec Unit} (hf : ∀ s, f emptyPlan s = (.ok (), s)) (v : Session) :
    (c.catalog.baseNames.map (c.planFor s)).forM f v = f (planOf s) v := by
  have honce := hc.once
  have hmem : c.catalog.baseName name ∈ c.catalog.baseNames :=
    List.count_pos_iff.mp (by omega)
  rw [forM_map_apply (c.catalog.baseName name) (fun n _ hne v => ?_) (by omega),
    if_pos hmem, planFor_eq hc hs, if_pos rfl]
  rw [planFor_eq hc hs, if_neg hne]
  exact hf v

/-- With writes on commit no listener takes part in a flush. -/
theorem announce_ok (hcommit : c.catalog.OnCommit) {action : Action} {id : Nat}
    (h : c.announce action id s = (.ok (), u)) : u = s := by
  unfold announce at h
  rw [Exec.bind_apply, Exec.object_apply] at h
  cases ho : s.object? id with
  | none =>
      rw [ho] at h
      cases h
  | some o =>
      rw [ho] at h
      dsimp only at h
      cases hx : c.catalog.searchable? o.entity with
      | none =>
          rw [hx] at h
          exact (Prod.mk.inj h).2.symm
      | some y =>
          rw [hx] at h
          dsimp only at h
          rw [hcommit.listenerCount_eq_zero] at h
          split at h
          · exact (Prod.mk.inj h).2.symm
          · exact (Prod.mk.inj h).2.symm

theorem forM_announce_ok (hcommit : c.catalog.OnCommit) {action : Action} {ids : List Nat}
    (h : ids.forM (c.announce action) s = (.ok (), u)) : u = s := by
  induction ids generalizing s with
  | nil => exact (Prod.mk.inj h).2.symm
  | cons id ids ih =>
      obtain ⟨v, hfirst, hrest⟩ := Exec.forM_cons_ok h
      obtain rfl := announce_ok hcommit hfirst
      exact ih hrest

/-- Rows of a flush are written.  Live objects show their rows, and the row of a key that no
object of the flush shows stays. -/
structure Writes (t : Table) (s u : Session) : Prop where
  tabled : Row.Tabled t.name u.rows
  others : ∀ id, id ∉ s.newcomers.map (·.id) → u.object? id = s.object? id
  live : ∀ o, s.IsLive o → ∃ r, Row.find? u.rows t.name o.label = some r ∧ o.Shows r
  apart : ∀ o ∈ s.newcomers, ∀ p ∈ s.newcomers, ∀ o' p', u.object? o.id = some o' →
    u.object? p.id = some p' → o'.label.same p'.label = true → o.id = p.id
  frame : ∀ k, (∀ d ∈ s.doomed, d.label.same k = false) →
    (∀ o ∈ s.newcomers, ∀ o', u.object? o.id = some o' → o'.label.same k = false) →
    (∀ o ∈ s.dirty, o.netChanges ≠ [] → o.label.same k = false) →
    Row.find? u.rows t.name k = Row.find? s.rows t.name k

/-- The new and changed objects have been saved: newcomers have rows of their own under keys
that were free. -/
structure Saves (t : Table) (s u : Session) : Prop extends Writes t s u where
  placed : ∀ o ∈ s.newcomers, ∃ key, u.object? o.id = some (o.numbered key) ∧ key.IsId ∧
    (∀ p, s.IsLive p → p.label.same key = false) ∧
    ∃ r, Row.find? u.rows t.name key = some r ∧ (o.numbered key).Shows r

/-- The rows of removed objects are gone too, apart from those that new objects took over. -/
structure Stores (t : Table) (s u : Session) : Prop extends Writes t s u where
  placed : ∀ o ∈ s.newcomers, ∃ key, u.object? o.id = some (o.numbered key) ∧ key.IsId ∧
    (∀ p, s.IsLive p → p.label.same key = false) ∧
    ((∀ d ∈ s.doomed, d.label.same key = false) →
      ∃ r, Row.find? u.rows t.name key = some r ∧ (o.numbered key).Shows r)
  gone : ∀ d ∈ s.doomed, (∀ o ∈ s.pending, d.label.same o.label = false) →
    ∀ k, d.label.same k = true → Row.find? u.rows t.name k = none

/-- Taking over rows touches keys of removed objects only. -/
theorem forM_replacing_ok (hc : c.Replicates name t x) (hs : s.Regular name t)
    (h : (planOf s).replacing.forM c.overwriteRow s = (.ok (), u)) :
    ∃ rows, u = { s with rows := rows } ∧ Row.Tabled t.name rows ∧
      ∀ k, (∀ d ∈ s.doomed, d.label.same k = false) →
        Row.find? rows t.name k = Row.find? s.rows t.name k := by
  obtain ⟨rows, hu, htabled, hframe⟩ := forM_overwriteRow_ok hc hs.rows (fun o ho => by
    obtain ⟨hmem, hobject, _⟩ := hs.pending_spec (List.mem_filter.mp ho).1
    exact ⟨hobject, hs.objects o hmem⟩) h
  refine ⟨rows, hu, htabled, fun k hk => hframe k fun o ho => ?_⟩
  obtain ⟨d, hd, hsame⟩ := List.any_eq_true.mp (List.mem_filter.mp ho).2
  rw [Bool.eq_false_iff]
  intro hok
  have hdo := hs.doomed_apart hk hok d hd
  rw [hsame] at hdo
  cases hdo

/-- Once the changes are written, the live objects show their rows. -/
theorem forM_changed_ok (hc : c.Replicates name t x) (hs : s.Regular name t) {rows : List Row}
    (htabled : Row.Tabled t.name rows)
    (hkept : ∀ k, (∀ d ∈ s.doomed, d.label.same k = false) →
      Row.find? rows t.name k = Row.find? s.rows t.name k)
    (h : (planOf s).changed.forM c.updateRow { s with rows := rows } = (.ok (), u)) :
    ∃ rows', u = { s with rows := rows' } ∧ Row.Tabled t.name rows' ∧
      (∀ o, s.IsLive o → ∃ r, Row.find? rows' t.name o.label = some r ∧ o.Shows r) ∧
      ∀ k, (∀ o ∈ s.dirty, o.netChanges ≠ [] → o.label.same k = false) →
        Row.find? rows' t.name k = Row.find? rows t.name k := by
  have hrows : ∀ o, s.IsLive o → ∃ r, Row.find? rows t.name o.label = some r ∧
      (o.Tracks r ∨ o.Shows r) := by
    intro o ho
    obtain ⟨r, hr, htracks⟩ := hs.lives o ho
    exact ⟨r, (hkept o.label fun d hd => hs.live_apart ho hd).trans hr, Or.inl htracks⟩
  obtain ⟨rows', hu, htabled', hframe, hlive⟩ := forM_updateRow_ok hc (L := s.IsLive) htabled
    (fun o ho => by
      obtain ⟨hlive, _⟩ := Session.Regular.isLive_of_dirty (Obj.mem_byKey.mp ho)
      exact ⟨hs.sound.object?_eq hlive.1, hlive⟩)
    (fun o ho => ⟨hs.objects o ho.1, ho.2.1⟩)
    (fun o p ho hp => hs.distinct o ho.1 p hp.1 ho.2.1 hp.2.1) hrows h
  refine ⟨rows', hu, htabled', fun o ho => ?_,
    fun k hk => hframe k fun o ho => hk o (Obj.mem_byKey.mp ho)⟩
  obtain ⟨r, hr, htracks, hshows⟩ := hlive o ho
  refine ⟨r, hr, ?_⟩
  cases hmodified : o.modified with
  | true =>
      refine hshows (Obj.mem_byKey.mpr (List.mem_filter.mpr ⟨ho.1, ?_⟩))
      simpa [ho.2.1, hmodified] using ho.2.2
  | false =>
      rcases htracks with htracks | hshows
      · exact (hs.objects o ho.1).shows htracks
          (by rw [Obj.isModified, hmodified, Bool.false_and])
      · exact hshows

theorem saves_spec (hc : c.Replicates name t x) (hs : s.Regular name t) {v : Session}
    (h : c.save (planOf s) s = (.ok (), v)) : Saves t s v := by
  unfold save at h
  obtain ⟨_, s₁, hreplacing, hrest₁⟩ := Exec.bind_eq_ok h
  obtain ⟨_, s₂, hchanged, hrest₂⟩ := Exec.bind_eq_ok hrest₁
  obtain ⟨_, s₃, hinserted, hrest₃⟩ := Exec.bind_eq_ok hrest₂
  obtain ⟨_, s₄, hindex, hrest₄⟩ := Exec.bind_eq_ok hrest₃
  obtain ⟨_, s₅, hupdate, hupdate'⟩ := Exec.bind_eq_ok hrest₄
  obtain rfl := forM_announce_ok hc.onCommit hindex
  obtain rfl := forM_announce_ok hc.onCommit hupdate
  obtain rfl := forM_announce_ok hc.onCommit hupdate'
  obtain ⟨rows₁, rfl, htabled₁, hkept⟩ := forM_replacing_ok hc hs hreplacing
  obtain ⟨rows₂, rfl, htabled₂, hlive, hframe⟩ := forM_changed_ok hc hs htabled₁ hkept hchanged
  have hinsert := forM_insertRow_ok hc (s := { s with rows := rows₂ }) htabled₂ hs.newcomers_nodup
    (fun o ho => by
      obtain ⟨hmem, hobject, _⟩ := hs.pending_spec (List.mem_filter.mp ho).1
      exact ⟨hobject, hs.objects o hmem⟩) hinserted
  refine { tabled := hinsert.tabled, others := hinsert.others, live := ?live,
           apart := hinsert.apart, frame := ?frame, placed := ?placed }
  case live =>
    intro o ho
    obtain ⟨r, hr, hshows⟩ := hlive o ho
    exact ⟨r, hinsert.kept o.label r hr, hshows⟩
  case frame =>
    intro k hdoomed hnew hchanged
    exact (hinsert.frame k hnew).trans ((hframe k hchanged).trans (hkept k hdoomed))
  case placed =>
    intro o ho
    obtain ⟨key, hobject, hkey, hfree, hrow⟩ := hinsert.placed o ho
    refine ⟨key, hobject, hkey, fun p hp => ?_, hrow⟩
    -- the row of a live object was there before, so its key was not free
    rw [Bool.eq_false_iff]
    intro hsame
    obtain ⟨q, hq, _⟩ := hlive p hp
    rw [htabled₂.find?_congr (hs.objects p hp.1).label hsame] at hq
    exact absurd (hfree.symm.trans hq) (by simp)

theorem stores_spec (hc : c.Replicates name t x) (hs : s.Regular name t) {v : Session}
    (hsave : c.save (planOf s) s = (.ok (), v)) (hremove : c.remove (planOf s) v = (.ok (), u)) :
    Stores t s u := by
  have hsaves := saves_spec hc hs hsave
  unfold remove at hremove
  obtain ⟨_, s₁, hremoved, hdelete⟩ := Exec.bind_eq_ok hremove
  obtain rfl := forM_announce_ok hc.onCommit hdelete
  obtain ⟨rows, rfl, htabled, hrows⟩ := forM_removeRow_ok hc hsaves.tabled (fun d hd => by
    have hd := (List.mem_filter.mp (Obj.mem_byKey.mp hd)).1
    obtain ⟨hmem, hobject, _, hstored⟩ := hs.doomed_spec hd
    exact ⟨(hsaves.others d.id (hs.stored_notMem_newcomers hmem hstored)).trans hobject,
      hs.objects d hmem, hstored⟩) hremoved
  have hkept : ∀ k, (∀ d ∈ s.doomed, d.label.same k = false) →
      Row.find? rows t.name k = Row.find? v.rows t.name k := by
    intro k hk
    rw [hrows, if_neg]
    rw [List.any_eq_true]
    rintro ⟨d, hd, hsame⟩
    rw [hk d (List.mem_filter.mp (Obj.mem_byKey.mp hd)).1] at hsame
    cases hsame
  refine { tabled := htabled, others := hsaves.others, live := ?live, apart := hsaves.apart,
           frame := ?frame, placed := ?placed, gone := ?gone }
  case live =>
    intro o ho
    obtain ⟨r, hr, hshows⟩ := hsaves.live o ho
    exact ⟨r, (hkept o.label fun d hd => hs.live_apart ho hd).trans hr, hshows⟩
  case frame =>
    intro k hdoomed hnew hchanged
    exact (hkept k hdoomed).trans (hsaves.frame k hdoomed hnew hchanged)
  case placed =>
    intro o ho
    obtain ⟨key, hobject, hkey, hfree, r, hr, hshows⟩ := hsaves.placed o ho
    exact ⟨key, hobject, hkey, hfree, fun hdoomed => ⟨r, (hkept key hdoomed).trans hr, hshows⟩⟩
  case gone =>
    intro d hd hleft k hk
    refine (hrows k).trans (if_pos (List.any_eq_true.mpr ⟨d, Obj.mem_byKey.mpr ?_, hk⟩))
    refine List.mem_filter.mpr ⟨hd, ?_⟩
    rw [Bool.not_eq_true', List.any_eq_false]
    exact fun o ho hsame => by simp [hleft o ho] at hsame

end Surroundings

end Typeahead
