import Mathlib.Data.Finset.Card
import Typeahead.Client.Cache

/-!
# What the cache keeps

Every answer moves its entry to the front of the cache, and what exceeds the capacity is dropped at
the other end.  In front of an entry stand only entries of requests that were made since,
`KeptBehind`, so it is kept until there are as many other ones as the capacity allows.
-/

namespace Typeahead

/-- The client of some settings. -/
def Settings.client (settings : Settings) : Client := ⟨.text settings.connection.host, settings⟩

namespace ClientCache

variable {env : Environment} {cache cache' : ClientCache} {request other : ClientRequest}
  {c d : NumberedClient} {since : Finset ClientRequest}

theorem mem_entries_of_find? (h : cache.find? request = some c) : (request, c) ∈ cache.entries := by
  obtain ⟨e, he, rfl⟩ := Option.map_eq_some_iff.mp h
  have hkey : e.1 = request := by simpa using List.find?_some he
  rw [← hkey]
  exact List.mem_of_find?_eq_some he

/-! ### Answers -/

/-- A request is answered with the client remembered for it, or else with a new one of its
settings, and the answer is remembered. -/
structure Answered (env : Environment) (request : ClientRequest) (cache : ClientCache)
    (c : NumberedClient) (cache' : ClientCache) : Prop where
  entries : cache'.entries =
    ((request, c) :: cache.entries.filter fun e => e.1 != request).take capacity
  source :
    cache.find? request = some c ∧ cache'.created = cache.created ∨
    cache.find? request = none ∧ c.number = cache.created ∧ cache'.created = cache.created + 1 ∧
      (settingsFor env request.settings?).map Settings.client = .ok c.client

theorem shared_of_find? (env : Environment) (h : cache.find? request = some c) :
    cache.shared env request = (.ok c, cache.remember request c) := by
  rw [shared, h]

/-- A request is answered, or its settings cannot be read and it changes nothing. -/
theorem shared_cases (env : Environment) (request : ClientRequest) (cache : ClientCache) :
    (∃ c cache', cache.shared env request = (.ok c, cache') ∧
      Answered env request cache c cache') ∨
    ∃ e, cache.shared env request = (.error e, cache) ∧
      settingsFor env request.settings? = .error e := by
  cases hfind : cache.find? request with
  | some c => exact .inl ⟨c, _, shared_of_find? env hfind, rfl, .inl ⟨hfind, rfl⟩⟩
  | none =>
      rw [shared, hfind]
      cases hsettings : settingsFor env request.settings? with
      | error e => exact .inr ⟨e, rfl, rfl⟩
      | ok settings =>
          refine .inl ⟨_, _, rfl, rfl, .inr ⟨hfind, rfl, rfl, ?_⟩⟩
          rw [hsettings]
          rfl

theorem answered_of_shared (h : cache.shared env request = (.ok c, cache')) :
    Answered env request cache c cache' := by
  obtain ⟨d, after, hshared, hanswer⟩ | ⟨e, hshared, -⟩ := shared_cases env request cache
  · obtain ⟨heq, rfl⟩ := Prod.mk.inj (hshared.symm.trans h)
    obtain rfl := Except.ok.inj heq
    exact hanswer
  · cases hshared.symm.trans h

theorem shared_error {e : Failure} (h : cache.shared env request = (.error e, cache')) :
    cache' = cache ∧ settingsFor env request.settings? = .error e := by
  obtain ⟨d, after, hshared, -⟩ | ⟨e', hshared, hsettings⟩ := shared_cases env request cache
  · cases hshared.symm.trans h
  · obtain ⟨heq, rfl⟩ := Prod.mk.inj (hshared.symm.trans h)
    obtain rfl := Except.error.inj heq
    exact ⟨rfl, hsettings⟩

theorem Answered.mem_entries (h : Answered env request cache c cache') :
    (request, c) ∈ cache'.entries := by
  rw [h.entries, capacity, List.take_succ_cons]
  exact List.mem_cons_self

/-- An entry after an answer is the one of the answer, or it was there before. -/
theorem Answered.eq_or_mem (h : Answered env request cache c cache')
    {e : ClientRequest × NumberedClient} (he : e ∈ cache'.entries) :
    e = (request, c) ∨ e ∈ cache.entries := by
  rw [h.entries] at he
  rcases List.mem_cons.mp (List.mem_of_mem_take he) with rfl | he
  · exact .inl rfl
  · exact .inr (List.mem_of_mem_filter he)

/-! ### How long an entry is kept -/

/-- The cache has the entry of a request, and in front of it only entries of others that were made
since. -/
def KeptBehind (cache : ClientCache) (request : ClientRequest) (c : NumberedClient)
    (since : Finset ClientRequest) : Prop :=
  ∃ newer older, cache.entries = newer ++ (request, c) :: older ∧ (newer.map Prod.fst).Nodup ∧
    ∀ e ∈ newer, e.1 ∈ since.erase request

theorem Answered.keptBehind (h : Answered env request cache c cache')
    (since : Finset ClientRequest) : cache'.KeptBehind request c since :=
  ⟨[], _, h.entries, List.nodup_nil, List.forall_mem_nil _⟩

theorem KeptBehind.mono {since' : Finset ClientRequest} (h : cache.KeptBehind request c since)
    (hsub : since ⊆ since') : cache.KeptBehind request c since' := by
  obtain ⟨newer, older, hentries, hnodup, hnewer⟩ := h
  exact ⟨newer, older, hentries, hnodup,
    fun e he => Finset.erase_subset_erase request hsub (hnewer e he)⟩

theorem KeptBehind.find? (h : cache.KeptBehind request c since) :
    cache.find? request = some c := by
  obtain ⟨newer, older, hentries, -, hnewer⟩ := h
  have hnone : (newer.find? fun e => e.1 == request) = none :=
    List.find?_eq_none.mpr fun e he => by simpa using Finset.ne_of_mem_erase (hnewer e he)
  rw [ClientCache.find?, hentries, List.find?_append, hnone]
  simp

/-- Another answer pushes the entry back by at most one place. -/
theorem KeptBehind.answered (h : cache.KeptBehind request c since)
    (hanswer : Answered env other cache d cache')
    (hfew : ((insert other since).erase request).card < capacity) :
    cache'.KeptBehind request c (insert other since) := by
  by_cases heq : other = request
  · subst heq
    obtain ⟨hfind, -⟩ | ⟨hfind, -⟩ := hanswer.source
    · obtain rfl := Option.some.inj (h.find?.symm.trans hfind)
      exact hanswer.keptBehind _
    · exact absurd (h.find?.symm.trans hfind) (Option.some_ne_none c)
  · obtain ⟨newer, older, hentries, hnodup, hnewer⟩ := h
    let newer' := (other, d) :: newer.filter fun e => e.1 != other
    have hnodup' : (newer'.map Prod.fst).Nodup := by
      refine List.nodup_cons.mpr ⟨?_, hnodup.sublist (List.filter_sublist.map _)⟩
      simp
    have hnewer' : ∀ e ∈ newer', e.1 ∈ (insert other since).erase request := by
      refine List.forall_mem_cons.mpr
        ⟨Finset.mem_erase.mpr ⟨heq, Finset.mem_insert_self _ _⟩, fun e he => ?_⟩
      exact Finset.erase_subset_erase _ (Finset.subset_insert _ _)
        (hnewer e (List.mem_of_mem_filter he))
    -- distinct requests stand in front of the entry, so it is not among those that are dropped
    have hlength : newer'.length < capacity := by
      have hcard := List.toFinset_card_of_nodup hnodup'
      rw [List.length_map] at hcard
      rw [← hcard]
      refine lt_of_le_of_lt (Finset.card_le_card fun r hr => ?_) hfew
      obtain ⟨e, he, rfl⟩ := List.mem_map.mp (List.mem_toFinset.mp hr)
      exact hnewer' e he
    obtain ⟨room, hroom⟩ := Nat.exists_eq_succ_of_ne_zero (Nat.sub_ne_zero_of_lt hlength)
    refine ⟨newer', (older.filter fun e => e.1 != other).take room, ?_, hnodup', hnewer'⟩
    rw [hanswer.entries, hentries, List.filter_append,
      List.filter_cons_of_pos (by simpa using Ne.symm heq), ← List.cons_append, List.take_append,
      List.take_of_length_le hlength.le, hroom, List.take_succ_cons]

theorem KeptBehind.shared (h : cache.KeptBehind request c since)
    (hfew : ((insert other since).erase request).card < capacity) :
    (cache.shared env other).2.KeptBehind request c (insert other since) := by
  obtain ⟨d, cache', hshared, hanswer⟩ | ⟨e, hshared, -⟩ := shared_cases env other cache
  · rw [hshared]
    exact h.answered hanswer hfew
  · rw [hshared]
    exact h.mono (Finset.subset_insert _ _)

/-- The cache after some requests. -/
def run (env : Environment) (cache : ClientCache) (requests : List ClientRequest) : ClientCache :=
  requests.foldl (fun cache request => (cache.shared env request).2) cache

/-- An entry is kept while there are fewer other requests than the cache has places. -/
theorem KeptBehind.run (h : cache.KeptBehind request c since) (env : Environment)
    (requests : List ClientRequest)
    (hfew : ((since ∪ requests.toFinset).erase request).card < capacity) :
    (cache.run env requests).KeptBehind request c (since ∪ requests.toFinset) := by
  induction requests generalizing cache since with
  | nil => exact h.mono Finset.subset_union_left
  | cons other rest ih =>
      have hunion : since ∪ (other :: rest).toFinset = insert other since ∪ rest.toFinset := by
        rw [List.toFinset_cons, Finset.union_insert, Finset.insert_union]
      rw [hunion] at hfew ⊢
      refine ih (h.shared (lt_of_le_of_lt (Finset.card_le_card ?_) hfew)) hfew
      exact Finset.erase_subset_erase request Finset.subset_union_left

end ClientCache

end Typeahead
