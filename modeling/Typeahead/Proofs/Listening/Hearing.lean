import Typeahead.Proofs.Session.Delivery

/-!
# What listeners send

While a flush goes on, listeners send the writes of its changes.  `Session.Proceeds` is the
relation between two moments of a flush, and `Surroundings.Tells` says which writes a part of
the flush sends: they are read off any later moment, since an object that was told of is at
most read again afterwards.
-/

namespace Typeahead

namespace Obj

/-- What a flush leaves of an object: only the objects of `ids` may be numbered, all others are
at most read again. -/
structure Lasts (ids : List Nat) (attrs : List String) (o p : Obj) : Prop where
  carries : Carries ids o p
  loads : o.id ∉ ids → Loads attrs o p

namespace Lasts

variable {ids more : List Nat} {attrs : List String} {o p q : Obj}

theorem refl (ids : List Nat) (attrs : List String) (o : Obj) : Lasts ids attrs o o :=
  ⟨Carries.refl ids o, fun _ => Loads.refl attrs o⟩

theorem trans (h : Lasts ids attrs o p) (k : Lasts ids attrs p q) : Lasts ids attrs o q where
  carries := h.carries.trans k.carries
  loads hid := (h.loads hid).trans (k.loads (by rwa [h.carries.id]))

theorem of_loads (h : Loads attrs o p) (ids : List Nat) : Lasts ids attrs o p :=
  ⟨h.carries ids, fun _ => h⟩

theorem mono (h : Lasts ids attrs o p) (hids : ∀ id ∈ ids, id ∈ more) : Lasts more attrs o p where
  carries :=
    { h.carries with values := fun hid => h.carries.values fun hmem => hid (hids _ hmem) }
  loads hid := h.loads fun hmem => hid (hids _ hmem)

end Lasts

end Obj

namespace Session

/-- Two moments of a flush.  Writes may have been sent in between, but none were queued. -/
structure Proceeds (c : Surroundings) (ids : List Nat) (s t : Session) : Prop where
  opens : Opens s t
  sound : s.Sound → t.Sound
  queue : t.queue = s.queue
  fresh : t.fresh = s.fresh
  marked : t.marked = s.marked
  objects : s.Sound →
    List.Forall₂ (fun o p => Obj.Lasts ids (c.attrs o.entity) o p) s.objects t.objects

namespace Proceeds

variable {c : Surroundings} {ids more : List Nat} {s t u : Session}

theorem of_objects_eq (ids : List Nat) (hobjects : t.objects = s.objects)
    (hfresh : t.fresh = s.fresh) (hmarked : t.marked = s.marked) (hqueue : t.queue = s.queue)
    (hopens : Opens s t) : Proceeds c ids s t where
  opens := hopens
  sound h := by
    rw [Sound, hfresh]
    exact h.of_objects_eq hobjects
  queue := hqueue
  fresh := hfresh
  marked := hmarked
  objects _ := by
    rw [hobjects]
    exact List.forall₂_same.mpr fun o _ => Obj.Lasts.refl ids (c.attrs o.entity) o

theorem refl (c : Surroundings) (ids : List Nat) (s : Session) : Proceeds c ids s s :=
  of_objects_eq ids rfl rfl rfl rfl (Opens.refl s)

theorem trans (h : Proceeds c ids s t) (k : Proceeds c ids t u) : Proceeds c ids s u where
  opens := h.opens.trans k.opens
  sound := k.sound ∘ h.sound
  queue := k.queue.trans h.queue
  fresh := k.fresh.trans h.fresh
  marked := k.marked.trans h.marked
  objects hs := by
    refine forall₂_trans (fun o p q hop hpq => ?_) (h.objects hs) (k.objects (h.sound hs))
    rw [hop.carries.entity] at hpq
    exact hop.trans hpq

theorem mono (h : Proceeds c ids s t) (hids : ∀ id ∈ ids, id ∈ more) : Proceeds c more s t :=
  { h with objects := fun hs => (h.objects hs).imp fun _ _ hop => hop.mono hids }

theorem of_reads (h : Reads c s t) (hqueue : t.queue = s.queue) (ids : List Nat) :
    Proceeds c ids s t where
  opens := h.stays.opens
  sound := h.stays.sound
  queue := hqueue
  fresh := h.fresh
  marked := h.marked
  objects hs := (h.objects hs).imp fun _ _ hop => Obj.Lasts.of_loads hop ids

theorem of_put {o p : Obj} (ho : s.object? p.id = some o)
    (hop : Obj.Lasts ids (c.attrs o.entity) o p) :
    Proceeds c ids s (s.modifyObject p.id fun _ => p) where
  opens := Opens.of_eq rfl rfl rfl
  sound h := h.put (hop.carries.sound (h.objects o (mem_of_object?_eq_some ho).1))
  queue := rfl
  fresh := rfl
  marked := rfl
  objects h := forall₂_put h (fun q => Obj.Lasts.refl ids (c.attrs q.entity) q) ho hop

theorem object? (h : Proceeds c ids s t) (hs : s.Sound) {id : Nat} {o : Obj}
    (ho : s.object? id = some o) :
    ∃ p, t.object? id = some p ∧ Obj.Lasts ids (c.attrs o.entity) o p := by
  rcases object?_cases (h.objects hs) (fun o p hop => hop.carries.id) id with
    ⟨hnone, _⟩ | ⟨o', p, ho', hp, hlasts⟩
  · rw [hnone] at ho
    cases ho
  · obtain rfl := Option.some.inj (ho.symm.trans ho')
    exact ⟨p, hp, hlasts⟩

/-- An object that is not numbered in between is as much worth a write as before. -/
theorem isDue_eq (h : Proceeds c ids s t) (hs : s.Sound) (action : Action) {id : Nat}
    (hid : id ∉ ids) : t.isDue action id = s.isDue action id := by
  rcases object?_cases (h.objects hs) (fun o p hop => hop.carries.id) id with
    ⟨ho, hp⟩ | ⟨o, p, ho, hp, hlasts⟩
  · rw [isDue, isDue, ho, hp]
  · obtain ⟨hmem, rfl⟩ := mem_of_object?_eq_some ho
    have hmodified := hlasts.carries.isModified_eq (hs.objects o hmem).tracked hid
    rw [isDue, isDue, ho, hp, Option.any_some, Option.any_some, hmodified]

theorem path_eq (h : Proceeds c ids s t) (hstack : s.stack ≠ []) : t.path = s.path := by
  rw [Session.path_eq, Session.path_eq, h.opens.outline_eq hstack]

end Proceeds

/-- Two moments of a flush between which nothing is sent. -/
def Quiet (c : Surroundings) (ids : List Nat) (s t : Session) : Prop :=
  Proceeds c ids s t ∧ t.sent = s.sent

instance (c : Surroundings) (ids : List Nat) : IsPreorder Session (Quiet c ids) where
  refl s := ⟨Proceeds.refl c ids s, rfl⟩
  trans _ _ _ h k := ⟨h.1.trans k.1, k.2.trans h.2⟩

end Session

/-- A class that uses no configuration has no listener either. -/
theorem Catalog.listenerCount_eq_zero_of_searchable? {c : Catalog} {name : String}
    (h : c.searchable? name = none) : c.listenerCount name = 0 := by
  rw [listenerCount, List.length_eq_zero_iff, List.filter_eq_nil_iff]
  intro e he hlistener
  have hnone := List.findSome?_eq_none_iff.mp h e he
  rw [List.getLast?_eq_none_iff] at hnone
  rw [hasListener, hnone] at hlistener
  cases hlistener

namespace Surroundings

open Session

theorem permits_quiet (c : Surroundings) (ids : List Nat) : Permits c ids (Quiet c ids) where
  reads h hqueue := ⟨Proceeds.of_reads h hqueue ids, h.stays.sent⟩
  rows s rows := ⟨Proceeds.of_objects_eq ids rfl rfl rfl rfl (Opens.of_eq rfl rfl rfl), rfl⟩
  numbers {s o} t key ho hid := by
    have hcarries : Obj.Carries ids o { o with values := numberedValues o t key } :=
      ⟨rfl, rfl, rfl, rfl, rfl, rfl, fun a => has_numberedValues t key, fun hold => absurd hid hold⟩
    refine ⟨Proceeds.of_put (p := { o with values := numberedValues o t key }) ho ?_, rfl⟩
    exact ⟨hcarries, fun hold => absurd hid hold⟩

/-- The number of listeners that hear of an object. -/
def listeners (c : Surroundings) (s : Session) (id : Nat) : Nat :=
  match s.object? id with
  | some o => c.catalog.listenerCount o.entity
  | none => 0

/-- What the listeners of an object write for a change, each of them the same. -/
def heard (c : Surroundings) (s : Session) (change : Action × Nat) : List (Option PendingWrite) :=
  List.replicate (c.listeners s change.2) (c.changeOf s change.1 change.2)

/-- What listeners write for several changes.  Updates without changes are passed over. -/
def told (c : Surroundings) (changes : List (Action × Nat)) (s : Session) :
    List (Option PendingWrite) :=
  (changes.filter fun change => s.isDue change.1 change.2).flatMap (c.heard s)

theorem told_append (c : Surroundings) (xs ys : List (Action × Nat)) (s : Session) :
    c.told (xs ++ ys) s = c.told xs s ++ c.told ys s := by
  rw [told, List.filter_append, List.flatMap_append]
  rfl

/-- A part of a flush that may number the objects of `ids`.  On success it has sent the writes
that `f` reads off any moment after it; from then on objects of `later` may be numbered. -/
structure Told (c : Surroundings) (ids later : List Nat) (f : Session → List (Option PendingWrite))
    (s t : Session) (r : Except Failure Unit) : Prop where
  proceeds : Proceeds c ids s t
  sent : r = .ok () → ∃ ws : List PendingWrite, t.sent = s.sent ++ ws.map PendingWrite.call ∧
    ∀ u, Proceeds c later t u → f u = ws.map some

/-- A computation sends the writes that `f` reads off the moments after it. -/
def Tells (c : Surroundings) (ids later : List Nat) (f : Session → List (Option PendingWrite))
    (x : Exec Unit) : Prop :=
  ∀ s, s.Sound → s.stack ≠ [] → Told c ids later f s (x s).2 (x s).1

section Tells

variable {c : Surroundings} {ids later : List Nat} {f g : Session → List (Option PendingWrite)}
  {s t : Session} {action : Action} {id : Nat}

theorem Told.congr {r : Except Failure Unit} (h : Told c ids later f s t r)
    (hf : ∀ u, Proceeds c later t u → f u = g u) : Told c ids later g s t r := by
  refine ⟨h.proceeds, fun hr => ?_⟩
  obtain ⟨ws, hsent, hws⟩ := h.sent hr
  exact ⟨ws, hsent, fun u hu => (hf u hu).symm.trans (hws u hu)⟩

/-- Nothing is sent. -/
theorem Told.none (hf : ∀ u, Proceeds c later s u → f u = []) : Told c ids later f s s (.ok ()) :=
  ⟨Proceeds.refl c ids s, fun _ => ⟨[], (List.append_nil s.sent).symm, hf⟩⟩

theorem tells_of_quiet {x : Exec Unit} (hx : Exec.Follows (Quiet c ids) x) (later : List Nat) :
    Tells c ids later (fun _ => []) x := fun s _ _ =>
  ⟨(hx s).1, fun _ => ⟨[], by rw [(hx s).2, List.map_nil, List.append_nil], fun _ _ => rfl⟩⟩

/-- Two parts send the writes of one and then those of the other, as long as the second does not
number what the first has told of. -/
theorem tells_bind (ids : List Nat) {ids₁ ids₂ later₁ : List Nat} {x y : Exec Unit}
    (hx : Tells c ids₁ later₁ f x) (hy : Tells c ids₂ later g y)
    (hids₁ : ∀ id ∈ ids₁, id ∈ ids) (hids₂ : ∀ id ∈ ids₂, id ∈ ids)
    (hnext : ∀ id ∈ ids₂, id ∈ later₁) (hlater : ∀ id ∈ later, id ∈ later₁) :
    Tells c ids later (fun u => f u ++ g u) (x >>= fun _ => y) := by
  intro s hs hstack
  obtain ⟨hfirst, hsent⟩ := hx s hs hstack
  rw [Exec.bind_apply]
  rcases hxs : x s with ⟨r, t⟩
  rw [hxs] at hfirst hsent
  cases r with
  | error e => exact ⟨hfirst.mono hids₁, nofun⟩
  | ok a =>
      obtain ⟨hrest, hsent'⟩ := hy t (hfirst.sound hs) (hfirst.opens.stack_ne_nil hstack)
      refine ⟨(hfirst.mono hids₁).trans (hrest.mono hids₂), fun hr => ?_⟩
      obtain ⟨ws, hws, hf⟩ := hsent rfl
      obtain ⟨vs, hvs, hg⟩ := hsent' hr
      refine ⟨ws ++ vs, ?_, fun u hu => ?_⟩
      · rw [List.map_append, ← List.append_assoc, ← hws]
        exact hvs
      · rw [List.map_append, hg u hu, hf u ((hrest.mono hnext).trans (hu.mono hlater))]

/-- Objects of the same classes have the same listeners. -/
theorem listeners_eq {R : Obj → Obj → Prop} (h : List.Forall₂ R s.objects t.objects)
    (hR : ∀ o p, R o p → p.id = o.id ∧ p.entity = o.entity) (id : Nat) :
    c.listeners t id = c.listeners s id := by
  unfold listeners
  rcases object?_cases h (fun o p hop => (hR o p hop).1) id with ⟨ho, hp⟩ | ⟨o, p, ho, hp, hop⟩
  · rw [ho, hp]
  · rw [ho, hp]
    dsimp only
    rw [(hR o p hop).2]

theorem listeners_of_proceeds (h : Proceeds c ids s t) (hs : s.Sound) (id : Nat) :
    c.listeners t id = c.listeners s id :=
  listeners_eq (h.objects hs) (fun _ _ hop => ⟨hop.carries.id, hop.carries.entity⟩) id

/-- A change that was captured stays what it is, unless its object is numbered. -/
theorem changeOf_of_proceeds (action : Action) {p : Obj} {x : Searchable}
    (h : Proceeds c ids s t) (hs : s.Sound)
    (hstack : s.stack ≠ []) (hid : id ∉ ids) (hp : s.object? id = some p)
    (hx : c.catalog.searchable? p.entity = some x) (hhand : c.AtHand (neededAttrs x action) p) :
    c.changeOf t action id = c.changeOf s action id := by
  obtain ⟨q, hq, hlasts⟩ := h.object? hs hp
  have hold : p.id ∉ ids := by rwa [(mem_of_object?_eq_some hp).2]
  exact changeOf_of_loads hp hq (hlasts.loads hold) (h.path_eq hstack) hx hhand

variable (c) in
/-- What one listener does. -/
def react (x : Searchable) (action : Action) (id : Nat) : Exec Unit := do
  let (key, body) ← c.capture x action id
  c.send x action key body

theorem announce_eq (c : Surroundings) (action : Action) (id : Nat) :
    c.announce action id = (do
      let o ← Exec.object id
      match c.catalog.searchable? o.entity with
      | none => return ()
      | some x =>
          if action == .update && !o.isModified then return ()
          else (List.replicate (c.catalog.listenerCount o.entity) ()).forM fun _ =>
            c.react x action id) := rfl

variable (henabled : c.enabled = true)

include henabled

/-- One listener sends the write of a change. -/
theorem react_told (action : Action) {o : Obj} {x : Searchable} (hs : s.Sound)
    (hstack : s.stack ≠ [])
    (hid : id ∉ later) (ho : s.object? id = some o)
    (hx : c.catalog.searchable? o.entity = some x) :
    Told c [] later (fun u => [c.changeOf u action id]) s (c.react x action id s).2
      (c.react x action id s).1 := by
  unfold react
  rw [Exec.bind_apply]
  rcases hcapture : c.capture x action id s with ⟨r, t⟩
  obtain ⟨hreads, hqueue, hcaptured⟩ := c.capture_reads hcapture
  have hproceeds := Proceeds.of_reads hreads hqueue []
  cases r with
  | error e => exact ⟨hproceeds, nofun⟩
  | ok parts =>
      obtain ⟨p, hp, hhand, hparts⟩ := hcaptured parts rfl
      obtain ⟨p', hp', hlasts⟩ := hproceeds.object? hs ho
      obtain rfl : p' = p := Option.some.inj (hp'.symm.trans hp)
      have hxp : c.catalog.searchable? p'.entity = some x := by rwa [hlasts.carries.entity]
      obtain ⟨key, body⟩ := parts
      have hchange : c.changeOf t action id = some ⟨t.path, x, action, key, body⟩ := by
        simp [changeOf, hp, hxp, hparts, Except.toOption]
      obtain ⟨outcome, hsend, _⟩ := c.send_spec ⟨t.path, x, action, key, body⟩ t
      dsimp only at hsend ⊢
      rw [hsend, henabled, if_pos rfl]
      have hsending (calls : List Call) (ids : List Nat) :
          Proceeds c ids t { t with sent := calls } :=
        Proceeds.of_objects_eq ids rfl rfl rfl rfl (Opens.of_eq rfl rfl rfl)
      refine ⟨hproceeds.trans (hsending _ []), fun _ => ⟨[⟨t.path, x, action, key, body⟩], ?_,
        fun u hu => ?_⟩⟩
      · dsimp only
        rw [hreads.stays.sent]
        rfl
      · have hlater := changeOf_of_proceeds action ((hsending _ later).trans hu)
          (hproceeds.sound hs) (hproceeds.opens.stack_ne_nil hstack) hid hp hxp hhand
        rw [hlater, hchange]
        rfl

/-- All listeners of a class send the write of a change, each of them once. -/
theorem forM_react_told (action : Action) {x : Searchable} (hs : s.Sound) (hstack : s.stack ≠ [])
    (hid : id ∉ later)
    {o : Obj} (ho : s.object? id = some o) (hx : c.catalog.searchable? o.entity = some x)
    (n : Nat) :
    Told c [] later (fun u => List.replicate n (c.changeOf u action id)) s
      ((List.replicate n ()).forM (fun _ => c.react x action id) s).2
      ((List.replicate n ()).forM (fun _ => c.react x action id) s).1 := by
  induction n generalizing s o with
  | zero => exact Told.none fun _ _ => rfl
  | succ n ih =>
      have hfirst := react_told henabled action hs hstack hid ho hx
      rw [List.replicate_succ, Exec.forM_cons, Exec.bind_apply]
      rcases hreact : c.react x action id s with ⟨r, t⟩
      rw [hreact] at hfirst
      cases r with
      | error e => exact ⟨hfirst.proceeds, nofun⟩
      | ok a =>
          obtain ⟨p, hp, hlasts⟩ := hfirst.proceeds.object? hs ho
          have hrest := ih (hfirst.proceeds.sound hs) (hfirst.proceeds.opens.stack_ne_nil hstack)
            hp (by rwa [hlasts.carries.entity])
          refine ⟨hfirst.proceeds.trans hrest.proceeds, fun hr => ?_⟩
          obtain ⟨ws, hws, hf⟩ := hfirst.sent rfl
          obtain ⟨vs, hvs, hg⟩ := hrest.sent hr
          refine ⟨ws ++ vs, ?_, fun u hu => ?_⟩
          · rw [List.map_append, ← List.append_assoc, ← hws]
            exact hvs
          · rw [List.map_append, ← hg u hu, ← hf u ((hrest.proceeds.mono nofun).trans hu)]
            rfl

/-- The listeners hear of one change. -/
theorem tells_announce (action : Action) (hid : id ∉ later) :
    Tells c [] later (c.told [(action, id)]) (c.announce action id) := by
  intro s hs hstack
  rw [announce_eq, Exec.bind_apply, Exec.object_apply]
  cases ho : s.object? id with
  | none => exact ⟨Proceeds.refl c [] s, nofun⟩
  | some o =>
      dsimp only
      have hsame (u : Session) (hu : Proceeds c later s u) : c.listeners u id =
          c.catalog.listenerCount o.entity := by
        rw [listeners_of_proceeds hu hs, listeners, ho]
      cases hx : c.catalog.searchable? o.entity with
      | none =>
          refine Told.none fun u hu => ?_
          have hdeaf := Catalog.listenerCount_eq_zero_of_searchable? hx
          simp [told, List.filter_cons, heard, hsame u hu, hdeaf]
      | some x =>
          dsimp only
          have hdue := isDue_eq_not action ho
          cases hskip : (action == .update && !o.isModified) with
          | true =>
              rw [hskip] at hdue
              refine Told.none fun u hu => ?_
              simp [told, hu.isDue_eq hs action hid, hdue]
          | false =>
              rw [hskip] at hdue
              have hforM := forM_react_told henabled action hs hstack hid ho hx
                (c.catalog.listenerCount o.entity)
              refine hforM.congr fun u hu => ?_
              have hsu := (hforM.proceeds.mono nofun).trans hu
              simp [told, heard, hsu.isDue_eq hs action hid, hdue, hsame u hsu]

theorem tells_forM_announce (action : Action) {xs : List Nat} (hxs : ∀ id ∈ xs, id ∉ later) :
    Tells c [] later (c.told (xs.map fun id => (action, id))) (xs.forM (c.announce action)) := by
  induction xs with
  | nil => exact fun s _ _ => Told.none fun _ _ => rfl
  | cons id xs ih =>
      intro s hs hstack
      have hfirst := tells_announce henabled action (hxs id List.mem_cons_self)
      have hrest := ih fun id' hid' => hxs id' (List.mem_cons_of_mem id hid')
      rw [Exec.forM_cons]
      refine (tells_bind [] hfirst hrest nofun nofun nofun (fun _ h => h) s hs hstack).congr
        fun u _ => ?_
      rw [← told_append]
      rfl

end Tells

end Surroundings

end Typeahead
