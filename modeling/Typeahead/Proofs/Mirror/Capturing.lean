import Typeahead.Proofs.Index.Contents
import Typeahead.Proofs.Session.Delivery
import Typeahead.Proofs.Mirror.Storing

/-!
# The writes of a flush and their documents

When a flush comes to an end, every change that is due has been captured.  The calls for
one id that its writes come to are those of the objects that show the id.
-/

namespace Typeahead

namespace PendingWrite

theorem isFor_call (w : PendingWrite) (k : Value) : w.call.isFor k = w.id.same k := by
  unfold call
  cases w.action with
  | index => rfl
  | update => rfl
  | delete => rfl

/-- What a write makes of a document. -/
theorem revise_call (w : PendingWrite) (doc : Option Value) :
    Call.revise doc w.call =
      match w.action with
      | .index => some w.body
      | .update => doc.map w.body.overlaid
      | .delete => none := by
  unfold call
  cases w.action with
  | index => rfl
  | update =>
      have hpart : Entries.get [(.text "doc", w.body)] "doc" = w.body := by
        simp [Entries.get, Entries.lookup, Entries.same_text_self]
      dsimp only
      rw [Call.revise, hpart]
  | delete => rfl

end PendingWrite

namespace Session

/-- Objects that are not expired are not read again. -/
theorem Reads.objects_eq {c : Surroundings} {s t : Session} (h : Reads c s t) (hs : s.Sound)
    (hpresent : ∀ o ∈ s.objects, o.expired = false) : t.objects = s.objects := by
  have hloads := h.objects hs
  generalize s.objects = xs at hloads hpresent
  generalize t.objects = ys at hloads
  induction hloads with
  | nil => rfl
  | @cons o p xs ys hop _ ih =>
      have hrest := ih fun q hq => hpresent q (List.mem_cons_of_mem o hq)
      rcases hop with rfl | ⟨hexpired, _⟩
      · rw [hrest]
      · rw [hpresent o List.mem_cons_self] at hexpired
        cases hexpired

theorem object?_congr {s t : Session} (h : t.objects = s.objects) (id : Nat) :
    t.object? id = s.object? id := by
  rw [object?, object?, h]

end Session

namespace Surroundings

open Session

variable {c : Surroundings} {s u : Session}

/-- A change that is due is captured. -/
theorem enqueue_ok {action : Action} {id : Nat} {o : Obj} {x : Searchable}
    (h : c.enqueue action id s = (.ok (), u)) (hs : s.Sound)
    (hpresent : ∀ o ∈ s.objects, o.expired = false) (ho : s.object? id = some o)
    (hx : c.queueing? o.entity = some x) (hdue : s.isDue action id = true) :
    ∃ parts, x.index.writeParts action (o.view (c.attrs o.entity)) = .ok parts := by
  have hskip : (action == .update && !o.isModified) = false := by
    rw [isDue, ho, Option.any_some] at hdue
    cases action with
    | index => rfl
    | delete => rfl
    | update => simpa using hdue
  unfold enqueue at h
  rw [Exec.bind_apply, Exec.object_apply, ho] at h
  dsimp only at h
  rw [hx] at h
  dsimp only at h
  rw [hskip, if_neg Bool.false_ne_true] at h
  obtain ⟨parts, v, hcapture, _⟩ := Exec.bind_eq_ok h
  obtain ⟨hreads, _, hcaptured⟩ := c.capture_reads hcapture
  obtain ⟨p, hp, _, hparts⟩ := hcaptured parts rfl
  rw [object?_congr (hreads.objects_eq hs hpresent), ho] at hp
  obtain rfl := Option.some.inj hp
  exact ⟨parts, hparts⟩

theorem forM_enqueue_ok {action : Action} {ids : List Nat}
    (h : ids.forM (c.enqueue action) s = (.ok (), u)) (hs : s.Sound) (hstack : s.stack ≠ [])
    (hpresent : ∀ o ∈ s.objects, o.expired = false) {id : Nat} (hid : id ∈ ids) {o : Obj}
    {x : Searchable} (ho : s.object? id = some o) (hx : c.queueing? o.entity = some x)
    (hdue : s.isDue action id = true) :
    ∃ parts, x.index.writeParts action (o.view (c.attrs o.entity)) = .ok parts := by
  induction ids generalizing s with
  | nil => cases hid
  | cons i ids ih =>
      obtain ⟨v, hfirst, hrest⟩ := Exec.forM_cons_ok h
      rcases List.mem_cons.mp hid with rfl | hid
      · exact enqueue_ok hfirst hs hpresent ho hx hdue
      · obtain ⟨hreads, _⟩ := (c.enqueues_enqueue action i).of_eq hfirst hs hstack
        have hobjects := hreads.objects_eq hs hpresent
        refine ih hrest (hreads.stays.sound hs) (hreads.stays.opens.stack_ne_nil hstack) ?_ hid
          ((object?_congr hobjects id).trans ho) ?_
        · rw [hobjects]
          exact hpresent
        · rw [hreads.isDue_eq hs]
          exact hdue

/-- When the changes of a flush are queued, every new object and every change of a stored one
has a write. -/
theorem collect_ok (h : c.collect s = (.ok (), u)) (hs : s.Sound) (hstack : s.stack ≠ [])
    (hpresent : ∀ o ∈ s.objects, o.expired = false) {o : Obj} {x : Searchable}
    (ho : s.object? o.id = some o) (hx : c.queueing? o.entity = some x) :
    (o.id ∈ s.fresh →
      ∃ parts, x.index.writeParts .index (o.view (c.attrs o.entity)) = .ok parts) ∧
    (o ∈ s.dirty → o.isModified = true →
      ∃ parts, x.index.writeParts .update (o.view (c.attrs o.entity)) = .ok parts) := by
  unfold collect at h
  rw [Exec.bind_apply, Exec.get_apply] at h
  dsimp only at h
  obtain ⟨_, s₁, hfresh, hrest⟩ := Exec.bind_eq_ok h
  obtain ⟨_, s₂, hdirty, _⟩ := Exec.bind_eq_ok hrest
  obtain ⟨hreads, _⟩ := (c.enqueues_forM .index s.fresh).of_eq hfresh hs hstack
  have hobjects := hreads.objects_eq hs hpresent
  refine ⟨fun hid => forM_enqueue_ok hfresh hs hstack hpresent hid ho hx rfl,
    fun hmem hmodified => ?_⟩
  refine forM_enqueue_ok hdirty (hreads.stays.sound hs) (hreads.stays.opens.stack_ne_nil hstack) ?_
    (List.mem_map_of_mem hmem) ((object?_congr hobjects o.id).trans ho) hx ?_
  · rw [hobjects]
    exact hpresent
  · rw [hreads.isDue_eq hs, isDue, ho, Option.any_some, hmodified, Bool.or_true]

variable {name : String} {t : Table} {x : Searchable}

theorem documentId_view (hc : c.Replicates name t x) (o : Obj) :
    Index.documentId (o.view t.attrs) = .ok o.label := by
  have hid : (o.view t.attrs).get? "id" = some o.label := by
    rw [Obj.get?_view, if_pos hc.id_mem_attrs, Obj.label, Options.getD]
    cases o.values.get? "id" with
    | none => rfl
    | some v => rfl
  rw [Index.documentId, hid]

/-- The write of an object has the id that the object shows. -/
theorem writeOf_eq (hc : c.Replicates name t x) {o : Obj} (ho : s.object? o.id = some o)
    (hentity : o.entity = name) (action : Action) :
    c.writeOf s action o.id = (x.index.bodyFor action (o.view t.attrs)).toOption.map fun body =>
      ⟨s.path, x, action, o.label, body⟩ := by
  simp only [writeOf, ho, hentity, hc.queueing?_eq, hc.attrs_eq, Option.bind_eq_bind,
    Option.bind_some, Index.writeParts, documentId_view hc]
  cases x.index.bodyFor action (o.view t.attrs) with
  | error e => rfl
  | ok body => rfl

/-- The calls for an id that the writes of several objects come to. -/
def callsFor (c : Surroundings) (s : Session) (action : Action) (ids : List Nat) (k : Value) :
    List Call :=
  ((ids.filterMap (c.writeOf s action)).map PendingWrite.call).filter (Call.isFor k)

theorem mem_callsFor (hc : c.Replicates name t x) (hs : ∀ o ∈ s.objects, o.entity = name)
    {action : Action} {ids : List Nat} {k : Value} {call : Call} :
    call ∈ c.callsFor s action ids k ↔ ∃ o, o.id ∈ ids ∧ s.object? o.id = some o ∧
      o.label.same k = true ∧ ∃ body, x.index.bodyFor action (o.view t.attrs) = .ok body ∧
        call = (⟨s.path, x, action, o.label, body⟩ : PendingWrite).call := by
  constructor
  · intro h
    obtain ⟨hcall, hk⟩ := List.mem_filter.mp h
    obtain ⟨w, hw, rfl⟩ := List.mem_map.mp hcall
    obtain ⟨id, hid, hwrite⟩ := List.mem_filterMap.mp hw
    cases ho : s.object? id with
    | none => simp [writeOf, ho] at hwrite
    | some o =>
        obtain ⟨hmem, rfl⟩ := mem_of_object?_eq_some ho
        rw [writeOf_eq hc ho (hs o hmem)] at hwrite
        obtain ⟨body, hbody, rfl⟩ := Option.map_eq_some_iff.mp hwrite
        rw [PendingWrite.isFor_call] at hk
        refine ⟨o, hid, ho, hk, body, ?_, rfl⟩
        cases hparts : x.index.bodyFor action (o.view t.attrs) with
        | error e =>
            rw [hparts] at hbody
            cases hbody
        | ok b =>
            rw [hparts] at hbody
            exact congrArg Except.ok (Option.some.inj hbody)
  · rintro ⟨o, hid, ho, hk, body, hbody, rfl⟩
    refine List.mem_filter.mpr ⟨List.mem_map_of_mem (List.mem_filterMap.mpr ⟨o.id, hid, ?_⟩), ?_⟩
    · rw [writeOf_eq hc ho (hs o (mem_of_object?_eq_some ho).1), hbody]
      rfl
    · rw [PendingWrite.isFor_call]
      exact hk

end Surroundings

end Typeahead
