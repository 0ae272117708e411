import Typeahead.Proofs.Mirror.Objects
import Typeahead.Proofs.Session.Rows
import Typeahead.Proofs.Session.Working

/-!
# Rows while a flush succeeds

What each loop of a flush does to the rows of a class that keeps its rows under `id`, when
it comes to an end: rows are written over, changed, inserted and removed, and a key that no
object of the loop shows keeps its row.
-/

namespace Typeahead

/-- The configuration that a class uses writes on commit if all do. -/
theorem Catalog.OnCommit.writesOnCommit {c : Catalog} (h : c.OnCommit) {name : String}
    {x : Searchable} (hx : c.searchable? name = some x) : x.index.writesOnCommit = true := by
  obtain ⟨e, he, hlast⟩ := List.exists_of_findSome?_eq_some hx
  exact h e (mem_of_mem_lineage he) x (List.mem_of_getLast? hlast)

namespace Surroundings

/-- A class whose rows are kept under the key `id` and whose changes are written on commit
to one index, while writes are switched on. -/
structure Replicates (c : Surroundings) (name : String) (t : Table) (x : Searchable) : Prop where
  enabled : c.enabled = true
  onCommit : c.catalog.OnCommit
  table : c.catalog.table? name = some t
  once : c.catalog.baseNames.count (c.catalog.baseName name) = 1
  keyed : t.keyColumn?.map (·.attr) = some "id"
  searchable : c.catalog.searchable? name = some x

namespace Replicates

variable {c : Surroundings} {name : String} {t : Table} {x : Searchable}

theorem attrs_eq (h : c.Replicates name t x) : c.attrs name = t.attrs := by
  rw [attrs, h.table]
  rfl

theorem tableName_eq (h : c.Replicates name t x) : c.tableName name = t.name := by
  rw [tableName, h.table]
  rfl

theorem keyColumn (h : c.Replicates name t x) :
    ∃ column, t.keyColumn? = some column ∧ column.attr = "id" :=
  Option.map_eq_some_iff.mp h.keyed

theorem id_mem_attrs (h : c.Replicates name t x) : "id" ∈ t.attrs := by
  obtain ⟨column, hcolumn, hid⟩ := h.keyColumn
  rw [← hid]
  exact List.mem_map_of_mem (List.mem_of_find?_eq_some hcolumn)

theorem ownKey_eq (h : c.Replicates name t x) {o : Obj} (ho : o.entity = name) :
    c.ownKey o = o.label := by
  obtain ⟨column, hcolumn, hid⟩ := h.keyColumn
  simp only [ownKey, ho, h.table, Option.bind_some, hcolumn, hid]
  rfl

theorem queueing?_eq (h : c.Replicates name t x) : c.queueing? name = some x := by
  rw [queueing?, h.searchable, Option.filter_some,
    if_pos (h.onCommit.writesOnCommit h.searchable)]

end Replicates

/-- An object that is not expired is taken as it is. -/
theorem load_present (c : Surroundings) {s : Session} {o : Obj} (ho : s.object? o.id = some o)
    (hpresent : o.expired = false) (needed : List String) :
    c.load o.id needed s = (.ok o, s) := by
  have hstale : c.isStale o needed = false := by rw [isStale, hpresent, Bool.false_and]
  unfold load
  rw [Exec.bind_apply, Exec.object_apply, ho]
  dsimp only
  rw [hstale]
  rfl

end Surroundings

namespace Session

variable {name : String} {t : Table} {s u v : Session}

/-- The values of an object are put into its row. -/
def Assigns (t : Table) (o : Obj) (attrs : List String) (s u : Session) : Prop :=
  ∃ r, Row.find? s.rows t.name o.label = some r ∧
    u = { s with rows := Row.change s.rows t.name o.label fun _ =>
      ⟨t.name, o.label, o.assigned attrs r⟩ }

theorem Assigns.tabled {o : Obj} {attrs : List String} (h : Assigns t o attrs s u)
    (hs : Row.Tabled t.name s.rows) (hlabel : o.label.IsId) : Row.Tabled t.name u.rows := by
  obtain ⟨r, _, rfl⟩ := h
  exact hs.change (r := ⟨t.name, o.label, o.assigned attrs r⟩) rfl hlabel

theorem Assigns.find?_eq {o : Obj} {attrs : List String} (h : Assigns t o attrs s u)
    (hs : Row.Tabled t.name s.rows) (hlabel : o.label.IsId) {k : Value}
    (hk : o.label.same k = false) : Row.find? u.rows t.name k = Row.find? s.rows t.name k := by
  obtain ⟨r, _, rfl⟩ := h
  have hfind := hs.find?_change (r := ⟨t.name, o.label, o.assigned attrs r⟩) rfl hlabel k
  dsimp only at hfind ⊢
  rw [hfind, hk]
  rfl

theorem Assigns.find?_self {o : Obj} {attrs : List String} (h : Assigns t o attrs s u)
    (hs : Row.Tabled t.name s.rows) (hlabel : o.label.IsId) :
    ∃ r, Row.find? s.rows t.name o.label = some r ∧
      Row.find? u.rows t.name o.label = some ⟨t.name, o.label, o.assigned attrs r⟩ := by
  obtain ⟨r, hr, rfl⟩ := h
  refine ⟨r, hr, ?_⟩
  have hfind := hs.find?_change (r := ⟨t.name, o.label, o.assigned attrs r⟩) rfl hlabel o.label
  dsimp only at hfind ⊢
  rw [hfind, hlabel.refl, if_pos rfl, hr]
  rfl

end Session

namespace Surroundings

open Session

variable {c : Surroundings} {name : String} {t : Table} {x : Searchable} {s u : Session}

/-- A change of a row that leaves its key. -/
theorem changeRow_ok (hc : c.Replicates name t x) {o : Obj} {attrs : List String}
    (hattrs : "id" ∉ attrs) (h : c.changeRow o t o.label attrs s = (.ok (), u)) :
    Assigns t o attrs s u := by
  obtain ⟨column, hcolumn, hid⟩ := hc.keyColumn
  have hkey : attrs.contains ((t.keyColumn?.map (·.attr)).getD "") = false := by
    rw [hcolumn, Option.map_some, Option.getD_some, hid, Bool.eq_false_iff]
    simpa using hattrs
  unfold changeRow at h
  rw [Exec.bind_apply, Exec.get_apply] at h
  dsimp only at h
  rw [hkey, if_neg Bool.false_ne_true] at h
  cases hrow : Row.find? s.rows t.name o.label with
  | none =>
      rw [hrow] at h
      cases h
  | some r =>
      rw [hrow] at h
      dsimp only at h
      split at h
      · cases h
      · obtain ⟨_, rfl⟩ := Prod.mk.inj h
        exact ⟨r, hrow, rfl⟩

theorem overwriteRow_ok (hc : c.Replicates name t x) {o : Obj} (ho : s.object? o.id = some o)
    (hentity : o.entity = name) (h : c.overwriteRow o.id s = (.ok (), u)) :
    u = s ∨ ∃ attrs, Assigns t o attrs s u := by
  obtain ⟨column, hcolumn, hid⟩ := hc.keyColumn
  unfold overwriteRow at h
  rw [Exec.bind_apply, Exec.object_apply, ho] at h
  dsimp only at h
  rw [hentity, hc.table] at h
  dsimp only at h
  rw [hc.ownKey_eq hentity] at h
  split at h
  · obtain ⟨_, rfl⟩ := Prod.mk.inj h
    exact Or.inl rfl
  · refine Or.inr ⟨_, changeRow_ok hc (fun hmem => ?_) h⟩
    have hother := (List.mem_filter.mp hmem).2
    rw [hcolumn] at hother
    simp [hid] at hother

theorem updateRow_ok (hc : c.Replicates name t x) {o : Obj} (ho : s.object? o.id = some o)
    (hregular : o.Regular name t) (hstored : o.standing = .stored)
    (h : c.updateRow o.id s = (.ok (), u)) :
    o.netChanges = [] ∧ u = s ∨ o.netChanges ≠ [] ∧ Assigns t o o.netChanges s u := by
  have hkey := hregular.key_eq hstored
  unfold updateRow at h
  rw [Exec.bind_apply, Exec.object_apply, ho] at h
  dsimp only at h
  rw [hregular.entity, hc.table, hkey] at h
  dsimp only at h
  split at h
  · next hnone =>
    obtain ⟨_, rfl⟩ := Prod.mk.inj h
    exact Or.inl ⟨List.isEmpty_iff.mp hnone, rfl⟩
  · next hsome =>
    rw [Exec.bind_apply, c.load_present ho hregular.present] at h
    refine Or.inr ⟨fun hnone => hsome (List.isEmpty_iff.mpr hnone), ?_⟩
    refine changeRow_ok hc (fun hmem => ?_) h
    exact (hregular.keyed _ hkey).2 (o.netChanges_subset hmem)

theorem removeRow_apply (hc : c.Replicates name t x) {o : Obj} (ho : s.object? o.id = some o)
    (hregular : o.Regular name t) (hstored : o.standing = .stored) :
    c.removeRow o.id s = (.ok (), { s with rows := Row.remove s.rows t.name o.label }) := by
  unfold removeRow
  rw [Exec.bind_apply, Exec.object_apply, ho]
  dsimp only
  rw [Exec.bind_apply, c.load_present ho hregular.present]
  dsimp only
  rw [hregular.key_eq hstored, hregular.entity, hc.tableName_eq]
  rfl

theorem forM_overwriteRow_ok (hc : c.Replicates name t x) {os : List Obj}
    (hs : Row.Tabled t.name s.rows)
    (hos : ∀ o ∈ os, s.object? o.id = some o ∧ o.Regular name t)
    (h : (os.map (·.id)).forM c.overwriteRow s = (.ok (), u)) :
    ∃ rows, u = { s with rows := rows } ∧ Row.Tabled t.name rows ∧
      ∀ k, (∀ o ∈ os, o.label.same k = false) →
        Row.find? rows t.name k = Row.find? s.rows t.name k := by
  induction os generalizing s with
  | nil =>
      obtain ⟨_, rfl⟩ := Prod.mk.inj h
      exact ⟨s.rows, rfl, hs, fun _ _ => rfl⟩
  | cons o os ih =>
      obtain ⟨v, hfirst, hrest⟩ := Exec.forM_cons_ok h
      obtain ⟨ho, hregular⟩ := hos o List.mem_cons_self
      have hothers : ∀ p ∈ os, s.object? p.id = some p ∧ p.Regular name t :=
        fun p hp => hos p (List.mem_cons_of_mem o hp)
      rcases overwriteRow_ok hc ho hregular.entity hfirst with rfl | ⟨attrs, hassigns⟩
      · obtain ⟨rows, hu, htabled, hframe⟩ := ih hs hothers hrest
        exact ⟨rows, hu, htabled, fun k hk => hframe k fun p hp => hk p (List.mem_cons_of_mem o hp)⟩
      · have hv := hassigns.tabled hs hregular.label
        have hfind := fun k => hassigns.find?_eq hs hregular.label (k := k)
        obtain ⟨r, _, rfl⟩ := hassigns
        obtain ⟨rows, rfl, htabled, hframe⟩ := ih hv hothers hrest
        refine ⟨rows, rfl, htabled, fun k hk => ?_⟩
        rw [hframe k fun p hp => hk p (List.mem_cons_of_mem o hp)]
        exact hfind k (hk o List.mem_cons_self)

/-- Once an object has been written, it shows its row. -/
theorem updateRow_shows (hc : c.Replicates name t x) (hs : Row.Tabled t.name s.rows) {o : Obj}
    (ho : s.object? o.id = some o) (hregular : o.Regular name t) (hstored : o.standing = .stored)
    {q : Row} (hq : Row.find? s.rows t.name o.label = some q) (htracks : o.Tracks q ∨ o.Shows q)
    (h : c.updateRow o.id s = (.ok (), u)) :
    ∃ rows, u = { s with rows := rows } ∧ Row.Tabled t.name rows ∧
      (∀ k, (o.netChanges ≠ [] → o.label.same k = false) →
        Row.find? rows t.name k = Row.find? s.rows t.name k) ∧
      ∃ r, Row.find? rows t.name o.label = some r ∧ o.Shows r := by
  rcases updateRow_ok hc ho hregular hstored h with ⟨hnet, rfl⟩ | ⟨hnet, hassigns⟩
  · refine ⟨u.rows, rfl, hs, fun _ _ => rfl, q, hq, ?_⟩
    rcases htracks with htracks | hshows
    · exact htracks.shows hnet
    · exact hshows
  · have hu := hassigns.tabled hs hregular.label
    have hfind := fun k => hassigns.find?_eq hs hregular.label (k := k)
    obtain ⟨r, hr, hself⟩ := hassigns.find?_self hs hregular.label
    obtain ⟨_, _, rfl⟩ := hassigns
    obtain rfl := Option.some.inj (hr.symm.trans hq)
    exact ⟨_, rfl, hu, fun k hk => hfind k (hk hnet), _, hself,
      Obj.shows_assigned htracks t.name o.label⟩

/-- Once the changed objects have been written, they show their rows.  `L` has the objects with
rows of their own. -/
theorem forM_updateRow_ok (hc : c.Replicates name t x) {L : Obj → Prop} {os : List Obj}
    (hs : Row.Tabled t.name s.rows) (hos : ∀ o ∈ os, s.object? o.id = some o ∧ L o)
    (hL : ∀ o, L o → o.Regular name t ∧ o.standing = .stored)
    (hdistinct : ∀ o p, L o → L p → o.label.same p.label = true → o = p)
    (hrows : ∀ o, L o → ∃ r, Row.find? s.rows t.name o.label = some r ∧ (o.Tracks r ∨ o.Shows r))
    (h : (os.map (·.id)).forM c.updateRow s = (.ok (), u)) :
    ∃ rows, u = { s with rows := rows } ∧ Row.Tabled t.name rows ∧
      (∀ k, (∀ o ∈ os, o.netChanges ≠ [] → o.label.same k = false) →
        Row.find? rows t.name k = Row.find? s.rows t.name k) ∧
      ∀ o, L o → ∃ r, Row.find? rows t.name o.label = some r ∧ (o.Tracks r ∨ o.Shows r) ∧
        (o ∈ os → o.Shows r) := by
  induction os generalizing s with
  | nil =>
      obtain ⟨_, rfl⟩ := Prod.mk.inj h
      refine ⟨s.rows, rfl, hs, fun _ _ => rfl, fun o ho => ?_⟩
      obtain ⟨r, hr, htracks⟩ := hrows o ho
      exact ⟨r, hr, htracks, fun hmem => absurd hmem List.not_mem_nil⟩
  | cons o os ih =>
      obtain ⟨v, hfirst, hrest⟩ := Exec.forM_cons_ok h
      obtain ⟨ho, hLo⟩ := hos o List.mem_cons_self
      obtain ⟨hregular, hstored⟩ := hL o hLo
      have hothers : ∀ p ∈ os, s.object? p.id = some p ∧ L p :=
        fun p hp => hos p (List.mem_cons_of_mem o hp)
      -- after the first object its row shows, and it goes on to do so
      obtain ⟨q₀, hq₀, htracks⟩ := hrows o hLo
      obtain ⟨rows, rfl, htabled, hframe, q, hq, hqshows⟩ :=
        updateRow_shows hc hs ho hregular hstored hq₀ htracks hfirst
      have hrows' : ∀ p, L p → ∃ r, Row.find? rows t.name p.label = some r ∧
          (p.Tracks r ∨ p.Shows r) := by
        intro p hp
        cases hsame : o.label.same p.label with
        | true =>
            obtain rfl := hdistinct o p hLo hp hsame
            exact ⟨q, hq, Or.inr hqshows⟩
        | false =>
            rw [hframe p.label fun _ => hsame]
            exact hrows p hp
      obtain ⟨rows', rfl, htabled', hframe', hshown⟩ :=
        ih (s := { s with rows := rows }) htabled hothers hrows' hrest
      refine ⟨rows', rfl, htabled', fun k hk => ?_, fun p hp => ?_⟩
      · rw [hframe' k fun p hp => hk p (List.mem_cons_of_mem o hp)]
        exact hframe k (hk o List.mem_cons_self)
      · obtain ⟨r, hr, htracks, hshows⟩ := hshown p hp
        refine ⟨r, hr, htracks, fun hmem => ?_⟩
        by_cases hlater : p ∈ os
        · exact hshows hlater
        · obtain rfl : p = o := by
            rcases List.mem_cons.mp hmem with heq | hmem
            · exact heq
            · exact absurd hmem hlater
          have hkept := hframe' p.label fun p' hp' _ => by
            rw [Bool.eq_false_iff]
            intro hsame
            rw [← hdistinct p' p (hothers p' hp').2 hLo hsame] at hlater
            exact hlater hp'
          obtain rfl := Option.some.inj ((hr.symm.trans hkept).trans hq)
          exact hqshows

end Surroundings

end Typeahead
