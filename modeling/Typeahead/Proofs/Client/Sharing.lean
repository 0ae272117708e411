import Mathlib.Logic.Function.Basic
import Typeahead.Proofs.Client.Cache
import Typeahead.Proofs.Mapping.Layout

/-!
# Who shares a client

Clients are asked for by calls, and by indexes that were given none: an index asks when it first
needs its client, and holds on to the one it gets.  A `Desk` serves such demands one after the
other.  Every answer has the settings that were asked for, no client answers two different
requests, and a request that is made again gets its client back if fewer other requests came in
between than the cache has places.  So the indexes without settings of their own share a client.
-/

namespace Typeahead

/-- What needs a client: a call for a shared one, or an index at work. -/
inductive Demand (ι : Type) where
  | call (request : ClientRequest)
  | use (index : ι)

/-- The shared clients, and the clients that the indexes hold. -/
structure Desk (ι : Type) where
  cache : ClientCache
  held : ι → Option NumberedClient

variable {ι : Type}

namespace Demand

/-- The request for the client that a demand needs. -/
def request (declared : ι → Index) : Demand ι → ClientRequest
  | call request => request
  | use i => (declared i).clientRequest

/-- The client that is at hand for a demand. -/
def held? (desk : Desk ι) : Demand ι → Option NumberedClient
  | call _ => none
  | use i => desk.held i

/-- The client for a demand, and the cache afterwards. -/
def take (env : Environment) (declared : ι → Index) (desk : Desk ι) :
    Demand ι → Except Failure NumberedClient × ClientCache
  | call request => desk.cache.shared env request
  | use i => (declared i).takeClient env (desk.held i) desk.cache

end Demand

namespace Desk

/-- Nothing has been asked for yet, and no index was given a client. -/
def opened : Desk ι := ⟨.empty, fun _ => none⟩

/-- What the indexes hold after an answer: an index at work holds the client it got. -/
def holds [DecidableEq ι] (desk : Desk ι) :
    Demand ι → Except Failure NumberedClient → ι → Option NumberedClient
  | .use i, .ok c => Function.update desk.held i (some c)
  | _, _ => desk.held

/-- Serves a demand. -/
def serve [DecidableEq ι] (env : Environment) (declared : ι → Index) (desk : Desk ι)
    (demand : Demand ι) : Except Failure NumberedClient × Desk ι :=
  let (r, cache) := demand.take env declared desk
  (r, ⟨cache, desk.holds demand r⟩)

/-- Serves demands one after the other. -/
def run [DecidableEq ι] (env : Environment) (declared : ι → Index) (desk : Desk ι)
    (demands : List (Demand ι)) : Desk ι :=
  demands.foldl (fun desk demand => (desk.serve env declared demand).2) desk

/-- The answer to a demand after others. -/
def answer [DecidableEq ι] (env : Environment) (declared : ι → Index) (before : List (Demand ι))
    (demand : Demand ι) : Except Failure NumberedClient :=
  ((opened.run env declared before).serve env declared demand).1

/-- The requests that are made while demands are served: none for a demand whose client is at
hand. -/
def made [DecidableEq ι] (env : Environment) (declared : ι → Index) :
    Desk ι → List (Demand ι) → List ClientRequest
  | _, [] => []
  | desk, demand :: rest =>
      (if demand.held? desk = none then [demand.request declared] else []) ++
        made env declared (desk.serve env declared demand).2 rest

/-! ### What is known -/

variable {env : Environment} {declared : ι → Index} {desk desk' : Desk ι} {demand : Demand ι}
  {request : ClientRequest} {c d : NumberedClient} {number : Nat}

/-- A client is known for a request: it is remembered for it, or an index with that request holds
it. -/
inductive Known (declared : ι → Index) (desk : Desk ι) : ClientRequest → NumberedClient → Prop
  | shared {request : ClientRequest} {c : NumberedClient}
      (h : (request, c) ∈ desk.cache.entries) : Known declared desk request c
  | held {i : ι} {c : NumberedClient} (h : desk.held i = some c) :
      Known declared desk (declared i).clientRequest c

/-- A number was given out, and only one request knows it. -/
structure Owned (declared : ι → Index) (desk : Desk ι) (request : ClientRequest) (number : Nat) :
    Prop where
  given : number < desk.cache.created
  only : ∀ other d, desk.Known declared other d → d.number = number → other = request

/-- Every known client is one of its request alone. -/
structure Sound (env : Environment) (declared : ι → Index) (desk : Desk ι) : Prop where
  owned : ∀ request c, desk.Known declared request c → desk.Owned declared request c.number
  client : ∀ request c, desk.Known declared request c →
    (ClientCache.settingsFor env request.settings?).map Settings.client = .ok c.client

/-- A client is made for a request: it has the next number. -/
structure New (env : Environment) (desk : Desk ι) (request : ClientRequest) (c : NumberedClient)
    (desk' : Desk ι) : Prop where
  number : c.number = desk.cache.created
  created : desk'.cache.created = desk.cache.created + 1
  client : (ClientCache.settingsFor env request.settings?).map Settings.client = .ok c.client

/-- A request is served with a client that was known for it, or with a new one, and nothing else
becomes known. -/
structure Served (env : Environment) (declared : ι → Index) (desk : Desk ι)
    (request : ClientRequest) (c : NumberedClient) (desk' : Desk ι) : Prop where
  source :
    desk.Known declared request c ∧ desk'.cache.created = desk.cache.created ∨
    New env desk request c desk'
  known : desk'.Known declared request c
  eq_or_known : ∀ other d, desk'.Known declared other d →
    other = request ∧ d = c ∨ desk.Known declared other d

theorem known_of_held (h : demand.held? desk = some c) :
    desk.Known declared (demand.request declared) c := by
  cases demand with
  | call request => cases h
  | use i => exact .held h

theorem sound_opened : Sound env declared (opened : Desk ι) := by
  have hnone : ∀ request c, ¬ (opened : Desk ι).Known declared request c := by
    intro request c h
    cases h with
    | shared h => cases h
    | held h => cases h
  exact ⟨fun _ _ h => absurd h (hnone _ _), fun _ _ h => absurd h (hnone _ _)⟩

namespace Served

theorem client_eq (h : Served env declared desk request c desk')
    (hsound : desk.Sound env declared) :
    (ClientCache.settingsFor env request.settings?).map Settings.client = .ok c.client := by
  obtain ⟨hknown, -⟩ | hnew := h.source
  · exact hsound.client _ _ hknown
  · exact hnew.client

theorem created_le (h : Served env declared desk request c desk') :
    desk.cache.created ≤ desk'.cache.created := by
  obtain ⟨-, hcreated⟩ | hnew := h.source
  · exact hcreated.ge
  · exact hnew.created.ge.trans' (Nat.le_succ _)

theorem owned {owner : ClientRequest} (h : Served env declared desk request c desk')
    (howned : desk.Owned declared owner number) : desk'.Owned declared owner number := by
  refine ⟨howned.given.trans_le h.created_le, fun other d hd hnumber => ?_⟩
  obtain ⟨rfl, rfl⟩ | hd := h.eq_or_known _ _ hd
  · obtain ⟨hknown, -⟩ | hnew := h.source
    · exact howned.only _ _ hknown hnumber
    · exact absurd (hnew.number.symm.trans hnumber) howned.given.ne'
  · exact howned.only _ _ hd hnumber

/-- The number of an answer belongs to its request. -/
theorem owned_answer (h : Served env declared desk request c desk')
    (hsound : desk.Sound env declared) : desk'.Owned declared request c.number := by
  obtain ⟨hknown, -⟩ | hnew := h.source
  · exact h.owned (hsound.owned _ _ hknown)
  · constructor
    · rw [hnew.number, hnew.created]
      exact Nat.lt_succ_self _
    · intro other d hd hnumber
      obtain ⟨rfl, -⟩ | hd := h.eq_or_known _ _ hd
      · rfl
      · exact absurd (hnumber.trans hnew.number) (hsound.owned _ _ hd).given.ne

theorem sound (h : Served env declared desk request c desk') (hsound : desk.Sound env declared) :
    desk'.Sound env declared where
  owned other d hd := by
    obtain ⟨rfl, rfl⟩ | hd := h.eq_or_known _ _ hd
    · exact h.owned_answer hsound
    · exact h.owned (hsound.owned _ _ hd)
  client other d hd := by
    obtain ⟨rfl, rfl⟩ | hd := h.eq_or_known _ _ hd
    · exact h.client_eq hsound
    · exact hsound.client _ _ hd

end Served

/-! ### Serving -/

variable [DecidableEq ι]

theorem eq_or_held_of_holds {r : Except Failure NumberedClient} {i : ι}
    (h : desk.holds demand r i = some d) :
    desk.held i = some d ∨ demand = .use i ∧ r = .ok d := by
  cases demand with
  | call request => exact .inl h
  | use j =>
      cases r with
      | error e => exact .inl h
      | ok c =>
          rw [holds] at h
          rcases eq_or_ne i j with rfl | hne
          · rw [Function.update_self] at h
            exact .inr ⟨rfl, congrArg Except.ok (Option.some.inj h)⟩
          · rw [Function.update_of_ne hne] at h
            exact .inl h

theorem serve_of_held (h : demand.held? desk = some c) :
    desk.serve env declared demand = (.ok c, desk) := by
  cases demand with
  | call request => cases h
  | use i =>
      have hheld : desk.held i = some c := h
      rw [serve, Demand.take, hheld, Index.takeClient]
      simp only [holds, ← hheld, Function.update_eq_self]

theorem serve_of_not_held (h : demand.held? desk = none) :
    desk.serve env declared demand =
      let (r, cache) := desk.cache.shared env (demand.request declared)
      (r, ⟨cache, desk.holds demand r⟩) := by
  cases demand with
  | call request => rfl
  | use i =>
      have hheld : desk.held i = none := h
      rw [serve, Demand.take, hheld, Index.takeClient, Demand.request]

theorem served_of_serve (h : desk.serve env declared demand = (.ok c, desk')) :
    Served env declared desk (demand.request declared) c desk' := by
  cases hheld : demand.held? desk with
  | some d =>
      rw [serve_of_held hheld] at h
      obtain ⟨heq, rfl⟩ := Prod.mk.inj h
      obtain rfl := Except.ok.inj heq
      have hknown : desk.Known declared (demand.request declared) d := known_of_held hheld
      exact ⟨.inl ⟨hknown, rfl⟩, hknown, fun _ _ => .inr⟩
  | none =>
      cases hshared : desk.cache.shared env (demand.request declared) with
      | mk r cache =>
      rw [serve_of_not_held hheld, hshared] at h
      obtain ⟨rfl, rfl⟩ := Prod.mk.inj h
      have hanswer := ClientCache.answered_of_shared hshared
      refine ⟨?_, .shared hanswer.mem_entries, fun other d hknown => ?_⟩
      · obtain ⟨hfind, hcreated⟩ | ⟨-, hnumber, hcreated, hclient⟩ := hanswer.source
        · exact .inl ⟨.shared (ClientCache.mem_entries_of_find? hfind), hcreated⟩
        · exact .inr ⟨hnumber, hcreated, hclient⟩
      · cases hknown with
        | shared hmem =>
            obtain heq | hmem := hanswer.eq_or_mem hmem
            · exact .inl (Prod.mk.inj heq)
            · exact .inr (.shared hmem)
        | held hd =>
            obtain hd | ⟨rfl, heq⟩ := eq_or_held_of_holds hd
            · exact .inr (.held hd)
            · exact .inl ⟨rfl, (Except.ok.inj heq).symm⟩

/-- A request for settings that cannot be read changes nothing. -/
theorem eq_of_serve_error {e : Failure} (h : desk.serve env declared demand = (.error e, desk')) :
    desk' = desk ∧
      ClientCache.settingsFor env (demand.request declared).settings? = .error e := by
  cases hheld : demand.held? desk with
  | some d =>
      rw [serve_of_held hheld] at h
      cases h
  | none =>
      cases hshared : desk.cache.shared env (demand.request declared) with
      | mk r cache =>
      rw [serve_of_not_held hheld, hshared] at h
      obtain ⟨rfl, rfl⟩ := Prod.mk.inj h
      obtain ⟨rfl, hsettings⟩ := ClientCache.shared_error hshared
      refine ⟨?_, hsettings⟩
      cases demand with
      | call request => rfl
      | use i => rfl

theorem Sound.serve (h : desk.Sound env declared) (demand : Demand ι) :
    (desk.serve env declared demand).2.Sound env declared := by
  rcases hserve : desk.serve env declared demand with ⟨_ | c, desk'⟩
  · obtain ⟨rfl, -⟩ := eq_of_serve_error hserve
    exact h
  · exact (served_of_serve hserve).sound h

theorem Owned.serve (h : desk.Owned declared request number) (env : Environment)
    (demand : Demand ι) : (desk.serve env declared demand).2.Owned declared request number := by
  rcases hserve : desk.serve env declared demand with ⟨_ | c, desk'⟩
  · obtain ⟨rfl, -⟩ := eq_of_serve_error hserve
    exact h
  · exact (served_of_serve hserve).owned h

theorem held_serve {i : ι} (h : desk.held i = some c) (env : Environment) (demand : Demand ι) :
    (desk.serve env declared demand).2.held i = some c := by
  cases hheld : demand.held? desk with
  | some d =>
      rw [serve_of_held hheld]
      exact h
  | none =>
      rw [serve_of_not_held hheld]
      cases demand with
      | call request => exact h
      | use j =>
          have hne : i ≠ j := by
            rintro rfl
            exact absurd (h.symm.trans hheld) (Option.some_ne_none c)
          rcases desk.cache.shared env ((Demand.use j).request declared) with ⟨_ | d, cache⟩
          · exact h
          · exact (Function.update_of_ne hne _ _).trans h

theorem held_of_serve {i : ι} (h : desk.serve env declared (.use i) = (.ok c, desk')) :
    desk'.held i = some c := by
  obtain ⟨hanswer, rfl⟩ := Prod.mk.inj h
  dsimp only
  rw [hanswer]
  exact Function.update_self i (some c) desk.held

/-! ### Runs -/

/-- What every demand keeps is kept by a run. -/
theorem run_induction {P : Desk ι → Prop}
    (hstep : ∀ desk demand, P desk → P (desk.serve env declared demand).2) (h : P desk)
    (demands : List (Demand ι)) : P (desk.run env declared demands) := by
  induction demands generalizing desk with
  | nil => exact h
  | cons demand rest ih => exact ih (hstep _ demand h)

theorem sound_run (demands : List (Demand ι)) :
    ((opened : Desk ι).run env declared demands).Sound env declared :=
  run_induction (fun _ demand h => h.serve demand) sound_opened demands

/-- The cache after a run is the one after the requests that were made in it. -/
theorem run_cache (desk : Desk ι) (demands : List (Demand ι)) :
    (desk.run env declared demands).cache =
      desk.cache.run env (made env declared desk demands) := by
  induction demands generalizing desk with
  | nil => rfl
  | cons demand rest ih =>
      have hstep : (desk.serve env declared demand).2.cache =
          desk.cache.run env
            (if demand.held? desk = none then [demand.request declared] else []) := by
        cases hheld : demand.held? desk with
        | some c => rw [serve_of_held hheld]; rfl
        | none => rw [serve_of_not_held hheld]; rfl
      rw [made, ClientCache.run, List.foldl_append, ← ClientCache.run, ← ClientCache.run, ← hstep]
      exact ih _

/-- Fewer other requests are made while demands are served than the cache has places. -/
def FewOthers (env : Environment) (declared : ι → Index) (desk : Desk ι) (request : ClientRequest)
    (demands : List (Demand ι)) : Prop :=
  ((made env declared desk demands).toFinset.erase request).card < ClientCache.capacity

variable {before between : List (Demand ι)} {first second : Demand ι}

theorem exists_serve_of_answer (h : answer env declared before first = .ok c) :
    ∃ desk', (opened.run env declared before).serve env declared first = (.ok c, desk') ∧
      ∀ between, opened.run env declared (before ++ first :: between) =
        desk'.run env declared between := by
  refine ⟨_, Prod.ext h rfl, fun between => ?_⟩
  rw [run, List.foldl_append, List.foldl_cons]
  rfl

/-- An answer has the settings that were asked for, and their host. -/
theorem client_answer (env : Environment) (declared : ι → Index) (before : List (Demand ι))
    (demand : Demand ι) :
    (answer env declared before demand).map NumberedClient.client =
      (ClientCache.settingsFor env (demand.request declared).settings?).map Settings.client := by
  rw [answer]
  rcases hserve : (opened.run env declared before).serve env declared demand with ⟨e | c, desk'⟩
  · rw [(eq_of_serve_error hserve).2]
    rfl
  · rw [(served_of_serve hserve).client_eq (sound_run before)]
    rfl

/-- A client that comes again comes for the same request. -/
theorem request_eq_of_number_eq (hc : answer env declared before first = .ok c)
    (hd : answer env declared (before ++ first :: between) second = .ok d)
    (hnumber : d.number = c.number) : second.request declared = first.request declared := by
  obtain ⟨desk₁, hfirst, hrun⟩ := exists_serve_of_answer hc
  obtain ⟨desk₂, hsecond, -⟩ := exists_serve_of_answer hd
  rw [hrun] at hsecond
  have howned := (served_of_serve hfirst).owned_answer (sound_run before)
  have hkept : (desk₁.run env declared between).Owned declared (first.request declared) c.number :=
    run_induction (P := fun desk => desk.Owned declared _ _)
      (fun _ demand h => h.serve env demand) howned between
  have hserved := served_of_serve hsecond
  exact (hserved.owned hkept).only _ _ hserved.known hnumber

/-- A request that is made again soon enough gets its client back. -/
theorem answer_again (hc : answer env declared before first = .ok c)
    (hfirst : first.held? (opened.run env declared before) = none)
    (hsecond : second.held? (opened.run env declared (before ++ first :: between)) = none)
    (hrequest : second.request declared = first.request declared)
    (hfew : FewOthers env declared (opened.run env declared (before ++ [first]))
      (first.request declared) between) :
    answer env declared (before ++ first :: between) second = .ok c := by
  obtain ⟨desk', hserve, hrun⟩ := exists_serve_of_answer hc
  rw [hrun] at hsecond hfew
  rw [answer, hrun, serve_of_not_held hsecond, run_cache, hrequest]
  -- the entry of the first answer is still in the cache
  cases hshared : (opened.run env declared before).cache.shared env (first.request declared) with
  | mk r cache =>
  rw [serve_of_not_held hfirst, hshared] at hserve
  obtain ⟨rfl, rfl⟩ := Prod.mk.inj hserve
  have hkept := (ClientCache.answered_of_shared hshared).keptBehind ∅
  have hfind := (hkept.run env _ (by rw [Finset.empty_union]; exact hfew)).find?
  exact congrArg Prod.fst (ClientCache.shared_of_find? env hfind)

/-- An index was declared without settings of its own. -/
def Plain (env : Environment) (index : Index) : Prop :=
  ∃ model attr options, Index.create env model attr none options = .ok index

theorem Plain.clientRequest_eq {index : Index} (h : Plain env index) :
    index.clientRequest = .placed none := by
  obtain ⟨model, attr, options, hcreate⟩ := h
  rw [Index.clientRequest, (Index.create_eq_ok_iff.mp hcreate).own]
  rfl

/-- An index keeps its client. -/
theorem answer_use_again {i : ι} (h : answer env declared before (.use i) = .ok c)
    (after : List (Demand ι)) :
    answer env declared (before ++ .use i :: after) (.use i) = .ok c := by
  obtain ⟨desk', hserve, hrun⟩ := exists_serve_of_answer h
  have hheld : (Demand.use i).held? (desk'.run env declared after) = some c :=
    run_induction (P := fun desk => desk.held i = some c)
      (fun _ demand hi => held_serve hi env demand) (held_of_serve hserve) after
  rw [answer, hrun, serve_of_held hheld]

/-- Indexes without settings that take their clients soon after each other share one for good. -/
theorem answer_plain {i j : ι} (hi : Plain env (declared i)) (hj : Plain env (declared j))
    (hc : answer env declared before (.use i) = .ok c)
    (hfirst : (opened.run env declared before).held i = none)
    (hsecond : (opened.run env declared (before ++ .use i :: between)).held j = none)
    (hfew : FewOthers env declared (opened.run env declared (before ++ [.use i])) (.placed none)
      between) (after : List (Demand ι)) :
    answer env declared (before ++ .use i :: between ++ .use j :: after) (.use i) = .ok c ∧
      answer env declared (before ++ .use i :: between ++ .use j :: after) (.use j) = .ok c := by
  have hown : (Demand.use i).request declared = .placed none := hi.clientRequest_eq
  have hother : (Demand.use j).request declared = .placed none := hj.clientRequest_eq
  rw [← hown] at hfew
  have hagain : answer env declared (before ++ .use i :: between) (.use j) = .ok c :=
    answer_again hc hfirst hsecond (hother.trans hown.symm) hfew
  refine ⟨?_, answer_use_again hagain after⟩
  rw [List.append_assoc, List.cons_append]
  exact answer_use_again hc _

/-- Every answer has the settings that were asked for, and their host.  A client comes again for its
own request only, and it does come again for it while fewer other requests are made in between
than the cache has places.  So two indexes without settings share a client, and keep it, when
there are no more requests between the first uses of both. -/
theorem answer_by_request (env : Environment) (declared : ι → Index)
    (before between : List (Demand ι)) (first second : Demand ι) :
    (answer env declared before first).map NumberedClient.client =
      (ClientCache.settingsFor env (first.request declared).settings?).map Settings.client ∧
    (∀ c d, answer env declared before first = .ok c →
      answer env declared (before ++ first :: between) second = .ok d →
      d.number = c.number → second.request declared = first.request declared) ∧
    (∀ c, answer env declared before first = .ok c →
      first.held? (opened.run env declared before) = none →
      second.held? (opened.run env declared (before ++ first :: between)) = none →
      second.request declared = first.request declared →
      FewOthers env declared (opened.run env declared (before ++ [first]))
        (first.request declared) between →
      answer env declared (before ++ first :: between) second = .ok c) ∧
    ∀ i j c, Plain env (declared i) → Plain env (declared j) →
      answer env declared before (.use i) = .ok c →
      (opened.run env declared before).held i = none →
      (opened.run env declared (before ++ .use i :: between)).held j = none →
      FewOthers env declared (opened.run env declared (before ++ [.use i])) (.placed none)
        between →
      ∀ after,
        answer env declared (before ++ .use i :: between ++ .use j :: after) (.use i) = .ok c ∧
        answer env declared (before ++ .use i :: between ++ .use j :: after) (.use j) = .ok c := by
  refine ⟨client_answer env declared before first, ?_, ?_, ?_⟩
  · intro c d hc hd hnumber
    exact request_eq_of_number_eq hc hd hnumber
  · intro c hc hfirst hsecond hrequest hfew
    exact answer_again hc hfirst hsecond hrequest hfew
  · intro i j c hi hj hc hfirst hsecond hfew after
    exact answer_plain hi hj hc hfirst hsecond hfew after

/-- Cities, in an index without settings of its own. -/
def cityIndex : Index :=
  (Index.create ⟨[], none⟩
    ⟨"City", some ⟨"cities", [⟨"id", "id", .generic .integer, true, false⟩,
      ⟨"name", "name", .generic .string, false, true⟩]⟩⟩ .null none []).toOption.get rfl

theorem plain_cityIndex : Plain ⟨[], none⟩ cityIndex :=
  ⟨_, _, _, Outcome.eq_ok_of_toOption (Option.some_get _).symm⟩

/-- Two indexes of cities share a client, although a call takes another one in between. -/
theorem answer_by_request_cities :
    ∃ c d : NumberedClient, c.client = Settings.client ⟨.standard, .standard⟩ ∧
      answer ⟨[], none⟩ (fun _ : Bool => cityIndex) [.use true] (.call .bare) = .ok d ∧
      d.number ≠ c.number ∧
      answer ⟨[], none⟩ (fun _ => cityIndex) [.use true, .call .bare] (.use false) = .ok c ∧
      ∀ after, ∀ b : Bool, answer ⟨[], none⟩ (fun _ => cityIndex)
        ([.use true, .call .bare, .use false] ++ after) (.use b) = .ok c := by
  let c : NumberedClient := ⟨0, Settings.client ⟨.standard, .standard⟩⟩
  let d : NumberedClient := ⟨1, Settings.client ⟨.standard, .standard⟩⟩
  have hc : answer ⟨[], none⟩ (fun _ : Bool => cityIndex) [] (.use true) = .ok c := rfl
  have hd : answer ⟨[], none⟩ (fun _ : Bool => cityIndex) [.use true] (.call .bare) = .ok d := rfl
  have hfew : FewOthers ⟨[], none⟩ (fun _ : Bool => cityIndex)
      (opened.run ⟨[], none⟩ (fun _ => cityIndex) [.use true]) (.placed none) [.call .bare] := by
    rw [FewOthers]
    decide +kernel
  obtain ⟨-, hapart, -⟩ := answer_by_request ⟨[], none⟩ (fun _ : Bool => cityIndex) [] []
    (.use true) (.call .bare)
  obtain ⟨-, -, hagain, hplain⟩ := answer_by_request ⟨[], none⟩ (fun _ : Bool => cityIndex) []
    [.call .bare] (.use true) (.use false)
  refine ⟨c, d, rfl, hd, fun hnumber => ?_, hagain c hc rfl rfl rfl hfew, fun after b => ?_⟩
  · cases hapart c d hc hd hnumber
  · obtain ⟨hfirst, hlast⟩ :=
      hplain true false c plain_cityIndex plain_cityIndex hc rfl rfl hfew after
    cases b with
    | true => exact hfirst
    | false => exact hlast

/-- Both calls ask for the settings of the environment, and one after the other they get clients of
their own: leaving the settings out is another request than giving none. -/
theorem exists_default_apart : ∃ c d : NumberedClient,
    ClientRequest.settings? .bare = ClientRequest.settings? (.placed none) ∧
    answer ⟨[], none⟩ Empty.elim [] (.call .bare) = .ok c ∧
    answer ⟨[], none⟩ Empty.elim [.call .bare] (.call (.placed none)) = .ok d ∧
    c.number ≠ d.number :=
  ⟨⟨0, Settings.client ⟨.standard, .standard⟩⟩, ⟨1, Settings.client ⟨.standard, .standard⟩⟩,
    rfl, rfl, rfl, by decide⟩

end Desk

end Typeahead
