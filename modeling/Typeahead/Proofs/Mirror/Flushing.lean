import Typeahead.Proofs.Mirror.Capturing

/-!
# The documents after a flush

For each id the rows and the index go through a flush side by side.  Under the id of a
removed object no document is left.  Under any other id there is a document exactly when
there is a row, and the document is one of the row.
-/

namespace Typeahead

/-- A document of a row: it is made from values that agree with those of the row. -/
def Row.HasDocument (x : Searchable) (r : Row) (doc : Value) : Prop :=
  ∃ values : Options, (∀ a, (values.getD a .null).Agrees (r.values.getD a .null)) ∧
    x.index.document values = .ok doc

theorem Obj.getD_view (attrs : List String) (o : Obj) (a : String) :
    (o.view attrs).getD a .null = o.values.getD a .null := by
  rw [Options.getD, Obj.get?_view, Options.getD]
  cases o.values.get? a with
  | some v => rfl
  | none =>
      by_cases ha : a ∈ attrs
      · rw [if_pos ha]
        rfl
      · rw [if_neg ha]
        rfl

theorem Obj.Shows.hasDocument {o : Obj} {r : Row} (h : o.Shows r) {x : Searchable}
    {attrs : List String} {doc : Value} (hdoc : x.index.document (o.view attrs) = .ok doc) :
    r.HasDocument x doc :=
  ⟨o.view attrs, fun a => by rw [Obj.getD_view]; exact h a, hdoc⟩

namespace Session

/-- The document under an id once all waiting writes were sent. -/
def documentUnder (s : Session) (k : Value) : Option Value :=
  Call.documentUnder (s.sent ++ s.queue.map PendingWrite.call) k

/-- Under each id there is a document exactly when there is a row, and it is one of the row. -/
def IsMirrored (t : Table) (x : Searchable) (s : Session) : Prop :=
  ∀ k, Option.Rel (Row.HasDocument x) (Row.find? s.rows t.name k) (s.documentUnder k)

end Session

namespace Surroundings

open Session

variable {c : Surroundings} {name : String} {t : Table} {x : Searchable} {s u v : Session}

namespace Stores

theorem object?_eq (h : Stores t s u) (hs : s.Regular name t) {o : Obj} (ho : o ∈ s.objects)
    (hold : o.id ∉ s.fresh) : u.object? o.id = some o := by
  refine (h.others o.id fun hmem => hold ?_).trans (hs.sound.object?_eq ho)
  obtain ⟨p, hp, hid⟩ := List.mem_map.mp hmem
  rw [← hid]
  exact hs.fresh_of_newcomers hp

/-- Where the objects of a session with written rows come from. -/
theorem origin (h : Stores t s u) {o : Obj} (ho : u.object? o.id = some o) :
    (∃ p ∈ s.newcomers, ∃ key, o = p.numbered key ∧ key.IsId) ∨ s.object? o.id = some o := by
  by_cases hmem : o.id ∈ s.newcomers.map (·.id)
  · obtain ⟨p, hp, hid⟩ := List.mem_map.mp hmem
    obtain ⟨key, hobject, hkey, _⟩ := h.placed p hp
    rw [hid, ho] at hobject
    exact Or.inl ⟨p, hp, key, Option.some.inj hobject, hkey⟩
  · rw [h.others o.id hmem] at ho
    exact Or.inr ho

theorem regular (hc : c.Replicates name t x) (h : Stores t s u) (hs : s.Regular name t)
    (hu : u.Sound) {o : Obj} (ho : o ∈ u.objects) : o.Regular name t := by
  rcases h.origin (hu.object?_eq ho) with ⟨p, hp, key, rfl, hkey⟩ | hold
  · obtain ⟨hmem, _, _, _, hnew⟩ := hs.pending_spec (List.mem_filter.mp hp).1
    exact (hs.objects p hmem).numbered hnew hc.id_mem_attrs hkey
  · exact hs.objects o (mem_of_object?_eq_some hold).1

/-- A stored object is as it was. -/
theorem stored (h : Stores t s u) (hs : s.Regular name t) (hu : u.Sound) {o : Obj}
    (ho : o ∈ u.objects) (hstored : o.standing = .stored) : s.object? o.id = some o := by
  rcases h.origin (hu.object?_eq ho) with ⟨p, hp, key, rfl, _⟩ | hold
  · obtain ⟨_, _, _, hpending, _⟩ := hs.pending_spec (List.mem_filter.mp hp).1
    exact absurd (hpending.symm.trans hstored) (by decide)
  · exact hold

end Stores

/-- A flush up to the point where its writes have been queued: `u` is the session with the
rows written, and `v` the one with the writes. -/
structure Queues (c : Surroundings) (t : Table) (s u v : Session) : Prop where
  stores : Stores t s u
  works : Works c s.fresh s u
  collect : c.collect u = (.ok (), v)
  stack : s.stack ≠ []

namespace Queues

theorem sound (h : Queues c t s u v) (hs : s.Regular name t) : u.Sound :=
  h.works.sound hs.sound

theorem stack_ne_nil (h : Queues c t s u v) : u.stack ≠ [] :=
  h.works.opens.stack_ne_nil h.stack

theorem present (h : Queues c t s u v) (hc : c.Replicates name t x) (hs : s.Regular name t) :
    ∀ o ∈ u.objects, o.expired = false :=
  fun _ ho => (h.stores.regular hc hs (h.sound hs) ho).present

theorem objects_eq (h : Queues c t s u v) (hc : c.Replicates name t x) (hs : s.Regular name t) :
    v.objects = u.objects :=
  (c.collect_queued h.collect (h.sound hs) h.stack_ne_nil).1.objects_eq (h.sound hs)
    (h.present hc hs)

/-- The calls for an id follow what was sent or waits: new objects, changed ones, removed
ones. -/
theorem documentUnder_eq (h : Queues c t s u v) (hc : c.Replicates name t x)
    (hs : s.Regular name t) (k : Value) :
    v.documentUnder k =
      (c.callsFor v .delete s.marked k).foldl Call.revise
        ((c.callsFor v .update ((u.dirty.filter Obj.isModified).map (·.id)) k).foldl Call.revise
          ((c.callsFor v .index s.fresh k).foldl Call.revise (s.documentUnder k))) := by
  obtain ⟨hreads, ws, hqueue, _, hws⟩ :=
    c.collect_queued h.collect (h.sound hs) h.stack_ne_nil
  have hsent : v.sent = s.sent := hreads.stays.sent.trans (h.works.stays hc.onCommit).sent
  rw [hws rfl v (Reads.refl c v), h.works.queue] at hqueue
  rw [documentUnder, hsent, hqueue, List.map_append, ← List.append_assoc,
    Call.documentUnder_append, ← documentUnder, written, h.works.fresh, h.works.marked,
    List.map_append, List.map_append, List.filter_append, List.filter_append, List.foldl_append,
    List.foldl_append]
  rfl

/-- The calls for an id are those of the objects that show it. -/
theorem mem_callsFor (h : Queues c t s u v) (hc : c.Replicates name t x) (hs : s.Regular name t)
    {action : Action} {ids : List Nat} {k : Value} {call : Call} :
    call ∈ c.callsFor v action ids k ↔ ∃ o, o.id ∈ ids ∧ u.object? o.id = some o ∧
      o.label.same k = true ∧ ∃ body, x.index.bodyFor action (o.view t.attrs) = .ok body ∧
        call = (⟨v.path, x, action, o.label, body⟩ : PendingWrite).call := by
  have hobjects := h.objects_eq hc hs
  rw [Surroundings.mem_callsFor hc]
  · simp only [object?_congr hobjects]
  · intro o ho
    rw [hobjects] at ho
    exact (h.stores.regular hc hs (h.sound hs) ho).entity

/-- No document is left under the id of a removed object. -/
theorem documentUnder_doomed (h : Queues c t s u v) (hc : c.Replicates name t x)
    (hs : s.Regular name t) {d : Obj} (hd : d ∈ s.doomed) {k : Value}
    (hk : d.label.same k = true) : v.documentUnder k = none := by
  rw [h.documentUnder_eq hc hs]
  refine Call.foldl_revise_eq (P := fun _ => True) (fun call hcall doc _ => ?_) ?_ trivial trivial
  · obtain ⟨o, _, _, _, body, _, rfl⟩ := (h.mem_callsFor hc hs).mp hcall
    exact PendingWrite.revise_call _ doc
  · obtain ⟨hmem, _, hmarked, hstored⟩ := hs.doomed_spec hd
    have hobject := h.stores.object?_eq hs hmem (hs.stored_notMem_fresh hmem hstored)
    exact List.ne_nil_of_mem ((h.mem_callsFor hc hs).mpr
      ⟨d, hmarked, hobject, hk, .null, rfl, rfl⟩)

/-- A changed object of the session with the rows written is one of before. -/
theorem live_of_dirty (h : Queues c t s u v) (hs : s.Regular name t) {o : Obj}
    (ho : o ∈ u.dirty) : s.IsLive o := by
  obtain ⟨⟨hmem, hstored, hmarked⟩, _⟩ := Session.Regular.isLive_of_dirty ho
  have hold := (mem_of_object?_eq_some (h.stores.stored hs (h.sound hs) hmem hstored)).1
  rw [h.works.marked] at hmarked
  exact ⟨hold, hstored, hmarked⟩

/-- Changed objects stay those while rows are written. -/
theorem dirty_of_dirty (h : Queues c t s u v) (hs : s.Regular name t) {o : Obj}
    (ho : o ∈ s.dirty) : o ∈ u.dirty := by
  obtain ⟨⟨hmem, hstored, hmarked⟩, hmodified⟩ := Session.Regular.isLive_of_dirty ho
  have hobject := h.stores.object?_eq hs hmem (hs.stored_notMem_fresh hmem hstored)
  refine List.mem_filter.mpr ⟨(mem_of_object?_eq_some hobject).1, ?_⟩
  rw [h.works.marked]
  simpa [hstored, hmodified] using hmarked

/-- The calls of updates are those of changed objects. -/
theorem dirty_of_mem_callsFor (h : Queues c t s u v) (hc : c.Replicates name t x)
    (hs : s.Regular name t) {k : Value} {call : Call}
    (hcall : call ∈ c.callsFor v .update ((u.dirty.filter Obj.isModified).map (·.id)) k) :
    ∃ o ∈ u.dirty, o.isModified = true ∧ o.label.same k = true ∧
      ∃ body, x.index.document (o.view t.attrs) = .ok body ∧
        call = (⟨v.path, x, .update, o.label, body⟩ : PendingWrite).call := by
  obtain ⟨o, hid, ho, hok, body, hbody, hcall⟩ := (h.mem_callsFor hc hs).mp hcall
  obtain ⟨p, hp, hpo⟩ := List.mem_map.mp hid
  obtain ⟨hdirty, hmodified⟩ := List.mem_filter.mp hp
  obtain rfl := (h.sound hs).eq_of_id_eq (List.mem_filter.mp hdirty).1
    (mem_of_object?_eq_some ho).1 hpo
  exact ⟨p, hdirty, hmodified, hok, body, hbody, hcall⟩

theorem callsFor_delete_eq_nil (h : Queues c t s u v) (hc : c.Replicates name t x)
    (hs : s.Regular name t) {k : Value} (hk : ∀ d ∈ s.doomed, d.label.same k = false) :
    c.callsFor v .delete s.marked k = [] := by
  refine List.eq_nil_iff_forall_not_mem.mpr fun call hcall => ?_
  obtain ⟨o, hmarked, ho, hok, _⟩ := (h.mem_callsFor hc hs).mp hcall
  by_cases hnew : o.id ∈ s.newcomers.map (·.id)
  · -- a new object is not marked
    obtain ⟨p, hp, hid⟩ := List.mem_map.mp hnew
    obtain ⟨_, hobject, _, hpending, _⟩ := hs.pending_spec (List.mem_filter.mp hp).1
    have hstored := hs.marked p (mem_objectsOf.mpr ⟨hid ▸ hmarked, hobject⟩)
    rw [hpending] at hstored
    cases hstored
  · rw [h.stores.others o.id hnew] at ho
    rw [hk o (mem_objectsOf.mpr ⟨hmarked, ho⟩)] at hok
    cases hok

/-- Only newcomers can show an id that no removed object has. -/
theorem newcomer_of_fresh (h : Queues c t s u v) (hs : s.Regular name t) {o : Obj}
    (hfresh : o.id ∈ s.fresh) (ho : u.object? o.id = some o) {k : Value}
    (hok : o.label.same k = true) (hk : ∀ d ∈ s.doomed, d.label.same k = false) :
    ∃ p ∈ s.newcomers, p.id = o.id := by
  rcases h.stores.origin ho with ⟨p, hp, key, rfl, _⟩ | hold
  · exact ⟨p, hp, rfl⟩
  · refine ⟨o, List.mem_filter.mpr ⟨mem_objectsOf.mpr ⟨hfresh, hold⟩, ?_⟩, rfl⟩
    rw [Bool.not_eq_true', List.any_eq_false]
    exact fun d hd => by simp [hs.doomed_apart hk hok d hd]

/-- A new object and a changed one have documents. -/
theorem exists_document (h : Queues c t s u v) (hc : c.Replicates name t x)
    (hs : s.Regular name t) {o : Obj} (ho : u.object? o.id = some o)
    (hdue : o.id ∈ s.fresh ∨ o ∈ u.dirty ∧ o.isModified = true) :
    ∃ body, x.index.document (o.view t.attrs) = .ok body := by
  have hregular := h.stores.regular hc hs (h.sound hs) (mem_of_object?_eq_some ho).1
  have hx : c.queueing? o.entity = some x := by rw [hregular.entity, hc.queueing?_eq]
  obtain ⟨hnew, hchanged⟩ := collect_ok h.collect (h.sound hs) h.stack_ne_nil
    (h.present hc hs) ho hx
  rw [h.works.fresh, hregular.entity, hc.attrs_eq] at hnew
  rw [hregular.entity, hc.attrs_eq] at hchanged
  rcases hdue with hfresh | ⟨hdirty, hmodified⟩
  · obtain ⟨parts, hparts⟩ := hnew hfresh
    exact Index.bodyFor_of_writeParts hparts
  · obtain ⟨parts, hparts⟩ := hchanged hdirty hmodified
    exact Index.bodyFor_of_writeParts hparts

/-- The calls of new objects leave the document of the newcomer that shows the id. -/
theorem foldl_index_newcomer (h : Queues c t s u v) (hc : c.Replicates name t x)
    (hs : s.Regular name t) {k : Value} (hk : ∀ d ∈ s.doomed, d.label.same k = false) {p o : Obj}
    (hp : p ∈ s.newcomers) (hid : p.id = o.id) (ho : u.object? o.id = some o)
    (hok : o.label.same k = true) {body : Value}
    (hbody : x.index.document (o.view t.attrs) = .ok body) (doc : Option Value) :
    (c.callsFor v .index s.fresh k).foldl Call.revise doc = some body := by
  have hlabel := (h.stores.regular hc hs (h.sound hs) (mem_of_object?_eq_some ho).1).label
  refine Call.foldl_revise_eq (P := fun _ => True) (fun call hcall doc _ => ?_) ?_ trivial trivial
  · obtain ⟨q, hq, hqobject, hqk, body', hbody', rfl⟩ := (h.mem_callsFor hc hs).mp hcall
    obtain ⟨p', hp', hid'⟩ := h.newcomer_of_fresh hs hq hqobject hqk hk
    have hqlabel := (h.stores.regular hc hs (h.sound hs)
      (mem_of_object?_eq_some hqobject).1).label
    have hpp := h.stores.apart p hp p' hp' o q (hid ▸ ho) (hid' ▸ hqobject)
      (hlabel.trans hok (hqlabel.symm hqk))
    obtain rfl : o = q := by
      rw [hid, hid'] at hpp
      rw [← hpp, ho] at hqobject
      exact Option.some.inj hqobject
    rw [PendingWrite.revise_call]
    exact congrArg some (Except.ok.inj (hbody'.symm.trans hbody))
  · have hfresh : o.id ∈ s.fresh := hid ▸ hs.fresh_of_newcomers hp
    exact List.ne_nil_of_mem ((h.mem_callsFor hc hs).mpr ⟨o, hfresh, ho, hok, body, hbody, rfl⟩)

/-- A newcomer gets its document along with its row. -/
theorem rel_documentUnder_newcomer (h : Queues c t s u v) (hc : c.Replicates name t x)
    (hs : s.Regular name t) {k : Value} (hk : ∀ d ∈ s.doomed, d.label.same k = false) {p o : Obj}
    (hp : p ∈ s.newcomers) (ho : u.object? p.id = some o) (hok : o.label.same k = true) :
    Option.Rel (Row.HasDocument x) (Row.find? u.rows t.name k) (v.documentUnder k) := by
  obtain ⟨key, hobject, hkey, hlive, hrow⟩ := h.stores.placed p hp
  obtain rfl := Option.some.inj (hobject.symm.trans ho)
  have hkk : key.same k = true := by rwa [Obj.label_numbered] at hok
  obtain ⟨r, hr, hshows⟩ := hrow (hs.doomed_apart hk hkk)
  rw [h.stores.tabled.find?_congr hkey hkk] at hr
  have hfresh : p.id ∈ s.fresh := hs.fresh_of_newcomers hp
  obtain ⟨body, hbody⟩ := h.exists_document hc hs (o := p.numbered key) ho (Or.inl hfresh)
  have hindex := h.foldl_index_newcomer hc hs hk (o := p.numbered key) hp rfl ho hok hbody
  have hupdate : c.callsFor v .update ((u.dirty.filter Obj.isModified).map (·.id)) k = [] := by
    refine List.eq_nil_iff_forall_not_mem.mpr fun call hcall => ?_
    obtain ⟨q, hqdirty, _, hqk, _⟩ := h.dirty_of_mem_callsFor hc hs hcall
    have hqlive := h.live_of_dirty hs hqdirty
    have hnot := hlive q hqlive
    rw [(hs.objects q hqlive.1).label.trans hqk (hkey.symm hkk)] at hnot
    cases hnot
  rw [h.documentUnder_eq hc hs, h.callsFor_delete_eq_nil hc hs hk, hupdate, hindex, hr]
  exact .some (hshows.hasDocument hbody)

/-- The calls of changed objects write the document of the one that shows the id over the
document from before. -/
theorem foldl_update_modified (h : Queues c t s u v) (hc : c.Replicates name t x)
    (hs : s.Regular name t) {k : Value} {o : Obj} (ho : o ∈ u.dirty)
    (hmodified : o.isModified = true) (hok : o.label.same k = true) {body : Value}
    (hbody : x.index.document (o.view t.attrs) = .ok body) {doc : Value} {values : Options}
    (hdoc : x.index.document values = .ok doc) :
    (c.callsFor v .update ((u.dirty.filter Obj.isModified).map (·.id)) k).foldl Call.revise
      (some doc) = some body := by
  have hlive := h.live_of_dirty hs ho
  have hlabel := (hs.objects o hlive.1).label
  refine Call.foldl_revise_eq
    (P := fun d => ∃ doc values, d = some doc ∧ x.index.document values = .ok doc)
    (fun call hcall d hd => ?_) ?_ ⟨doc, values, rfl, hdoc⟩ ⟨body, o.view t.attrs, rfl, hbody⟩
  · obtain ⟨q, hq, _, hqk, body', hbody', rfl⟩ := h.dirty_of_mem_callsFor hc hs hcall
    have hqlive := h.live_of_dirty hs hq
    obtain rfl := hs.distinct q hqlive.1 o hlive.1 hqlive.2.1 hlive.2.1
      ((hs.objects q hqlive.1).label.trans hqk (hlabel.symm hok))
    obtain ⟨doc, values, rfl, hdoc⟩ := hd
    rw [PendingWrite.revise_call]
    dsimp only
    rw [Option.map_some, Index.overlaid_document hdoc hbody']
    exact congrArg some (Except.ok.inj (hbody'.symm.trans hbody))
  · have hobject : u.object? o.id = some o := (h.sound hs).object?_eq (List.mem_filter.mp ho).1
    exact List.ne_nil_of_mem ((h.mem_callsFor hc hs).mpr
      ⟨o, List.mem_map_of_mem (List.mem_filter.mpr ⟨ho, hmodified⟩), hobject, hok, body, hbody,
        rfl⟩)

/-- The document of a changed row is written over the one from before. -/
theorem rel_foldl_update_modified (h : Queues c t s u v) (hc : c.Replicates name t x)
    (hs : s.Regular name t) (hmirror : s.IsMirrored t x) {k : Value} {o : Obj} (ho : o ∈ u.dirty)
    (hmodified : o.isModified = true) (hok : o.label.same k = true) :
    Option.Rel (Row.HasDocument x) (Row.find? u.rows t.name k)
      ((c.callsFor v .update ((u.dirty.filter Obj.isModified).map (·.id)) k).foldl Call.revise
        (s.documentUnder k)) := by
  have hlive := h.live_of_dirty hs ho
  have hlabel := (hs.objects o hlive.1).label
  obtain ⟨r, hr, hshows⟩ := h.stores.live o hlive
  obtain ⟨r₀, hr₀, _⟩ := hs.lives o hlive
  rw [h.stores.tabled.find?_congr hlabel hok] at hr
  rw [hs.rows.find?_congr hlabel hok] at hr₀
  obtain ⟨body, hbody⟩ := h.exists_document hc hs
    ((h.sound hs).object?_eq (List.mem_filter.mp ho).1) (Or.inr ⟨ho, hmodified⟩)
  have hbefore := hmirror k
  rw [hr₀] at hbefore
  cases hdoc : s.documentUnder k with
  | none =>
      rw [hdoc] at hbefore
      cases hbefore
  | some doc =>
      rw [hdoc] at hbefore
      cases hbefore with
      | some hhas =>
          obtain ⟨values, _, hvalues⟩ := hhas
          rw [h.foldl_update_modified hc hs ho hmodified hok hbody hvalues, hr]
          exact .some (hshows.hasDocument hbody)

/-- Under an id that no removed object has, a flush keeps documents and rows together. -/
theorem rel_documentUnder (h : Queues c t s u v) (hc : c.Replicates name t x)
    (hs : s.Regular name t) (hmirror : s.IsMirrored t x) {k : Value}
    (hk : ∀ d ∈ s.doomed, d.label.same k = false) :
    Option.Rel (Row.HasDocument x) (Row.find? u.rows t.name k) (v.documentUnder k) := by
  by_cases hnew : ∃ p ∈ s.newcomers, ∃ o, u.object? p.id = some o ∧ o.label.same k = true
  · obtain ⟨p, hp, o, ho, hok⟩ := hnew
    exact h.rel_documentUnder_newcomer hc hs hk hp ho hok
  have hindex : c.callsFor v .index s.fresh k = [] := by
    refine List.eq_nil_iff_forall_not_mem.mpr fun call hcall => ?_
    obtain ⟨o, hfresh, ho, hok, _⟩ := (h.mem_callsFor hc hs).mp hcall
    obtain ⟨p, hp, hid⟩ := h.newcomer_of_fresh hs hfresh ho hok hk
    exact hnew ⟨p, hp, o, hid ▸ ho, hok⟩
  rw [h.documentUnder_eq hc hs, h.callsFor_delete_eq_nil hc hs hk, hindex, List.foldl_nil,
    List.foldl_nil]
  by_cases hmodified : ∃ o ∈ u.dirty, o.isModified = true ∧ o.label.same k = true
  · obtain ⟨o, ho, homodified, hok⟩ := hmodified
    exact h.rel_foldl_update_modified hc hs hmirror ho homodified hok
  · have hupdate : c.callsFor v .update ((u.dirty.filter Obj.isModified).map (·.id)) k = [] := by
      refine List.eq_nil_iff_forall_not_mem.mpr fun call hcall => ?_
      obtain ⟨o, ho, homodified, hok, _⟩ := h.dirty_of_mem_callsFor hc hs hcall
      exact hmodified ⟨o, ho, homodified, hok⟩
    rw [hupdate, List.foldl_nil, h.stores.frame k hk]
    · exact hmirror k
    · intro p hp o ho
      rw [Bool.eq_false_iff]
      exact fun hok => hnew ⟨p, hp, o, ho, hok⟩
    · intro o ho hnet
      rw [Bool.eq_false_iff]
      intro hok
      have hmod : o.isModified = true := by
        rw [Obj.isModified, (Session.Regular.isLive_of_dirty ho).2, Bool.true_and,
          Bool.not_eq_true']
        simpa using hnet
      exact hmodified ⟨o, h.dirty_of_dirty hs ho, hmod, hok⟩

end Queues

end Surroundings

end Typeahead
