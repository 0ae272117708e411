import Typeahead.Proofs.Mirror.Saving

/-!
# Rows that come and go

New objects are numbered and get rows of their own under keys that were free, and the rows
of removed objects are gone.
-/

namespace Typeahead

namespace Obj

/-- An object with its id. -/
def numbered (o : Obj) (key : Value) : Obj := { o with values := o.values.set "id" key }

theorem label_numbered (o : Obj) (key : Value) : (o.numbered key).label = key := by
  rw [label, numbered, Options.getD_set, if_pos rfl]

theorem Regular.numbered {name : String} {t : Table} {o : Obj} (h : o.Regular name t)
    (hnew : o.key = none) (hid : "id" ∈ t.attrs) {key : Value} (hkey : key.IsId) :
    (o.numbered key).Regular name t where
  entity := h.entity
  present := h.present
  names a ha := by
    have hne : "id" ≠ a := fun heq => ha (heq ▸ hid)
    rw [Obj.numbered, Options.get?_set, if_neg hne]
    exact h.names a ha
  label := by
    rw [label_numbered]
    exact hkey
  keyed k hk := by
    rw [Obj.numbered, hnew] at hk
    cases hk
  stored := h.stored
  calm := h.calm

end Obj

namespace Surroundings

open Session

variable {c : Surroundings} {name : String} {t : Table} {x : Searchable} {s u : Session}

theorem Replicates.numberedValues_eq (hc : c.Replicates name t x) (o : Obj) (key : Value) :
    numberedValues o t key = (o.numbered key).values := by
  obtain ⟨column, hcolumn, hid⟩ := hc.keyColumn
  rw [numberedValues, hcolumn]
  dsimp only
  rw [hid]
  rfl

/-- A new object shows its row. -/
theorem Replicates.shows_newRow (hc : c.Replicates name t x) {o : Obj} (ho : o.Regular name t)
    (key : Value) : (o.numbered key).Shows (newRow o t key) := by
  intro a
  have hvalue : (newRow o t key).values.getD a .null =
      if a ∈ t.attrs then (numberedValues o t key).getD a .null else .null :=
    Options.getD_map (fun a => (numberedValues o t key).getD a .null) t.attrs a .null
  rw [hvalue, hc.numberedValues_eq]
  split
  · exact Value.Agrees.refl _
  · next ha =>
    have hne : "id" ≠ a := fun heq => ha (heq ▸ hc.id_mem_attrs)
    have hnull : (o.numbered key).values.getD a .null = .null := by
      rw [Obj.numbered, Options.getD_set, if_neg hne, Options.getD, ho.names a ha]
      rfl
    rw [hnull]
    exact Value.Agrees.refl _

theorem newKey_isId {rows : List Row} {own key : Value} (hown : own.IsId)
    (h : newKey t rows own = .ok key) : key.IsId := by
  unfold newKey at h
  split at h
  · split at h
    · obtain rfl := Except.ok.inj h
      exact ⟨rfl, by simp [Value.same]⟩
    · cases h
  · obtain rfl := Except.ok.inj h
    exact hown

theorem insertRow_ok (hc : c.Replicates name t x) {o : Obj} (ho : s.object? o.id = some o)
    (hregular : o.Regular name t) (h : c.insertRow o.id s = (.ok (), u)) :
    ∃ key, key.IsId ∧ Row.find? s.rows t.name key = none ∧
      u = ({ s with rows := s.rows ++ [newRow o t key] } : Session).modifyObject o.id
        fun _ => o.numbered key := by
  have htable : c.catalog.table? o.entity = some t := by rw [hregular.entity, hc.table]
  rw [c.insertRow_apply ho htable, hc.ownKey_eq hregular.entity] at h
  cases hkey : newKey t s.rows o.label with
  | error e =>
      rw [hkey] at h
      cases h
  | ok key =>
      rw [hkey] at h
      dsimp only at h
      split at h
      · cases h
      · next hfree =>
        obtain ⟨_, rfl⟩ := Prod.mk.inj h
        rw [Bool.or_eq_true, not_or] at hfree
        refine ⟨key, newKey_isId hregular.label hkey, by simpa using hfree.2, ?_⟩
        rw [hc.numberedValues_eq]
        rfl

/-- New objects were inserted: each has a row under a key that was free, and shows it. -/
structure Inserted (t : Table) (os : List Obj) (s u : Session) : Prop where
  tabled : Row.Tabled t.name u.rows
  kept : ∀ k r, Row.find? s.rows t.name k = some r → Row.find? u.rows t.name k = some r
  others : ∀ id, id ∉ os.map (·.id) → u.object? id = s.object? id
  placed : ∀ o ∈ os, ∃ key, u.object? o.id = some (o.numbered key) ∧ key.IsId ∧
    Row.find? s.rows t.name key = none ∧
    ∃ r, Row.find? u.rows t.name key = some r ∧ (o.numbered key).Shows r
  apart : ∀ o ∈ os, ∀ p ∈ os, ∀ o' p', u.object? o.id = some o' → u.object? p.id = some p' →
    o'.label.same p'.label = true → o.id = p.id
  frame : ∀ k, (∀ o ∈ os, ∀ o', u.object? o.id = some o' → o'.label.same k = false) →
    Row.find? u.rows t.name k = Row.find? s.rows t.name k

theorem Inserted.nil (hs : Row.Tabled t.name s.rows) : Inserted t [] s s where
  tabled := hs
  kept _ _ h := h
  others _ _ := rfl
  placed _ ho := absurd ho List.not_mem_nil
  apart _ ho := absurd ho List.not_mem_nil
  frame _ _ := rfl

/-- One object is inserted before others. -/
theorem Inserted.cons {o : Obj} {os : List Obj} {r : Row}
    (h : Inserted t os (({ s with rows := s.rows ++ [r] } : Session).modifyObject o.id
      fun _ => o.numbered r.key) u)
    (ho : s.object? o.id = some o) (hnew : o.id ∉ os.map (·.id)) (htable : r.table = t.name)
    (hkey : r.key.IsId) (hfree : Row.find? s.rows t.name r.key = none)
    (hshows : (o.numbered r.key).Shows r) : Inserted t (o :: os) s u := by
  have hfind := Row.find?_append s.rows htable
  have hput : ∀ id, (({ s with rows := s.rows ++ [r] } : Session).modifyObject o.id
      fun _ => o.numbered r.key).object? id =
        if o.id = id then (s.object? id).map fun _ => o.numbered r.key else s.object? id :=
    fun id => object?_put { s with rows := s.rows ++ [r] } (o.numbered r.key) id
  have hfirst : u.object? o.id = some (o.numbered r.key) := by
    rw [h.others o.id hnew, hput, if_pos rfl, ho]
    rfl
  -- a later object cannot have the key of the first one, which is no longer free
  have hlater : ∀ p ∈ os, ∃ key, u.object? p.id = some (p.numbered key) ∧ key.IsId ∧
      Row.find? s.rows t.name key = none ∧ r.key.same key = false ∧
      ∃ r, Row.find? u.rows t.name key = some r ∧ (p.numbered key).Shows r := by
    intro p hp
    obtain ⟨key, hplaced, hid, hboth, hrest⟩ := h.placed p hp
    have hnone : Row.find? (s.rows ++ [r]) t.name key = none := hboth
    rw [hfind, Option.or_eq_none_iff] at hnone
    refine ⟨key, hplaced, hid, hnone.1, ?_, hrest⟩
    rw [Bool.eq_false_iff]
    intro hsame
    rw [if_pos hsame] at hnone
    cases hnone.2
  refine { tabled := h.tabled, kept := ?kept, others := ?others, placed := ?placed,
           apart := ?apart, frame := ?frame }
  case kept =>
    intro k q hq
    refine h.kept k q ((hfind k).trans ?_)
    rw [hq]
    rfl
  case others =>
    intro id hid
    rw [List.map_cons, List.mem_cons, not_or] at hid
    rw [h.others id hid.2, hput, if_neg fun heq => hid.1 heq.symm]
  case placed =>
    intro p hp
    rcases List.mem_cons.mp hp with rfl | hp
    · have hrow : Row.find? (s.rows ++ [r]) t.name r.key = some r := by
        rw [hfind, hfree, hkey.refl]
        rfl
      exact ⟨r.key, hfirst, hkey, hfree, r, h.kept r.key r hrow, hshows⟩
    · obtain ⟨key, hplaced, hid, hfree', _, hrest⟩ := hlater p hp
      exact ⟨key, hplaced, hid, hfree', hrest⟩
  case apart =>
    have hother : ∀ p ∈ os, ∀ p', u.object? p.id = some p' →
        (o.numbered r.key).label.same p'.label = false ∧
          p'.label.same (o.numbered r.key).label = false := by
      intro p hp p' hp'
      obtain ⟨key, hplaced, hid, _, hne, _⟩ := hlater p hp
      obtain rfl := Option.some.inj (hplaced.symm.trans hp')
      rw [Obj.label_numbered, Obj.label_numbered]
      refine ⟨hne, ?_⟩
      rw [Bool.eq_false_iff]
      intro hsame
      rw [hid.symm hsame] at hne
      cases hne
    intro p hp q hq p' q' hp' hq' hsame
    rcases List.mem_cons.mp hp with rfl | hpmem
    · rcases List.mem_cons.mp hq with rfl | hqmem
      · rfl
      · obtain rfl := Option.some.inj (hfirst.symm.trans hp')
        rw [(hother q hqmem q' hq').1] at hsame
        cases hsame
    · rcases List.mem_cons.mp hq with rfl | hqmem
      · obtain rfl := Option.some.inj (hfirst.symm.trans hq')
        rw [(hother p hpmem p' hp').2] at hsame
        cases hsame
      · exact h.apart p hpmem q hqmem p' q' hp' hq' hsame
  case frame =>
    intro k hk
    have hkfirst := hk o List.mem_cons_self _ hfirst
    rw [Obj.label_numbered] at hkfirst
    rw [h.frame k fun p hp => hk p (List.mem_cons_of_mem o hp)]
    refine (hfind k).trans ?_
    rw [hkfirst, if_neg Bool.false_ne_true, Option.or_none]

theorem forM_insertRow_ok (hc : c.Replicates name t x) {os : List Obj}
    (hs : Row.Tabled t.name s.rows) (hnodup : (os.map (·.id)).Nodup)
    (hos : ∀ o ∈ os, s.object? o.id = some o ∧ o.Regular name t)
    (h : (os.map (·.id)).forM c.insertRow s = (.ok (), u)) : Inserted t os s u := by
  induction os generalizing s with
  | nil =>
      obtain ⟨_, rfl⟩ := Prod.mk.inj h
      exact Inserted.nil hs
  | cons o os ih =>
      obtain ⟨v, hfirst, hrest⟩ := Exec.forM_cons_ok h
      obtain ⟨ho, hregular⟩ := hos o List.mem_cons_self
      obtain ⟨hnew, hnodup⟩ := List.nodup_cons.mp hnodup
      obtain ⟨key, hkey, hfree, rfl⟩ := insertRow_ok hc ho hregular hfirst
      refine Inserted.cons (r := newRow o t key) (ih ?_ hnodup (fun p hp => ?_) hrest) ho hnew rfl
        hkey hfree (hc.shows_newRow hregular key)
      · exact hs.append (r := newRow o t key) rfl hkey hfree
      · obtain ⟨hp', hpregular⟩ := hos p (List.mem_cons_of_mem o hp)
        have hne : o.id ≠ p.id := fun heq => hnew (List.mem_map.mpr ⟨p, hp, heq.symm⟩)
        refine ⟨?_, hpregular⟩
        have hput := object?_put { s with rows := s.rows ++ [newRow o t key] } (o.numbered key) p.id
        exact hput.trans ((if_neg hne).trans hp')

/-- The rows of removed objects are gone, and all others stay. -/
theorem forM_removeRow_ok (hc : c.Replicates name t x) {os : List Obj}
    (hs : Row.Tabled t.name s.rows)
    (hos : ∀ o ∈ os, s.object? o.id = some o ∧ o.Regular name t ∧ o.standing = .stored)
    (h : (os.map (·.id)).forM c.removeRow s = (.ok (), u)) :
    ∃ rows, u = { s with rows := rows } ∧ Row.Tabled t.name rows ∧
      ∀ k, Row.find? rows t.name k =
        if os.any (fun o => o.label.same k) then none else Row.find? s.rows t.name k := by
  induction os generalizing s with
  | nil =>
      obtain ⟨_, rfl⟩ := Prod.mk.inj h
      exact ⟨s.rows, rfl, hs, fun _ => rfl⟩
  | cons o os ih =>
      obtain ⟨v, hfirst, hrest⟩ := Exec.forM_cons_ok h
      obtain ⟨ho, hregular, hstored⟩ := hos o List.mem_cons_self
      rw [removeRow_apply hc ho hregular hstored] at hfirst
      obtain ⟨_, rfl⟩ := Prod.mk.inj hfirst
      obtain ⟨rows, rfl, htabled, hrows⟩ :=
        ih (s := { s with rows := Row.remove s.rows t.name o.label }) (hs.remove o.label)
          (fun p hp => hos p (List.mem_cons_of_mem o hp)) hrest
      refine ⟨rows, rfl, htabled, fun k => ?_⟩
      rw [hrows, List.any_cons]
      dsimp only
      rw [hs.find?_remove hregular.label]
      cases o.label.same k with
      | true => simp
      | false => simp

end Surroundings

end Typeahead
