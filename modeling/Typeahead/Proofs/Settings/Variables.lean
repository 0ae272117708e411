import Mathlib.Data.List.Induction
import Mathlib.Data.List.Nodup
import Typeahead.Settings.Environment

/-!
# Variables under their names

Variables are kept once to a name.  What an environment holds under a name in lower case comes
from one of its own variables with that name in some case, and every variable is held under its
name.
-/

namespace Typeahead

namespace Variables

/-- The entry of a name: its text, or none for a name without one. -/
def lookup? (vars : Variables) (name : String) : Option (Option String) :=
  (vars.find? fun e => e.1 == name).map (·.2)

/-- No name occurs twice. -/
def Distinct (vars : Variables) : Prop := (vars.map (·.1)).Nodup

theorem get?_eq (vars : Variables) (name : String) :
    get? vars name = (lookup? vars name).join := by
  rw [get?, lookup?]
  cases vars.find? fun e => e.1 == name with
  | none => rfl
  | some e => rfl

theorem lookup?_cons (e : String × Option String) (vars : Variables) (name : String) :
    lookup? (e :: vars) name = if e.1 = name then some e.2 else lookup? vars name := by
  by_cases h : e.1 = name
  · simp [lookup?, h]
  · simp [lookup?, h]

theorem lookup?_eq_none_iff (vars : Variables) (name : String) :
    lookup? vars name = none ↔ ∀ e ∈ vars, e.1 ≠ name := by
  simp [lookup?]

theorem mem_of_lookup? {vars : Variables} {name : String} {text : Option String}
    (h : lookup? vars name = some text) : (name, text) ∈ vars := by
  obtain ⟨e, he, rfl⟩ := Option.map_eq_some_iff.mp h
  have hname : e.1 = name := by simpa using List.find?_some he
  exact hname ▸ List.mem_of_find?_eq_some he

/-- A name has an entry when every variable of the name has the same one. -/
theorem lookup?_of_unique {vars : Variables} {name : String} {text : Option String}
    (hmem : name ∈ vars.map (·.1)) (hall : ∀ e ∈ vars, e.1 = name → e.2 = text) :
    lookup? vars name = some text := by
  cases h : lookup? vars name with
  | none =>
      obtain ⟨e, he, rfl⟩ := List.mem_map.mp hmem
      exact absurd rfl ((lookup?_eq_none_iff vars e.1).mp h e he)
  | some found => exact congrArg some (hall _ (mem_of_lookup? h) rfl)

theorem lookup?_of_mem {vars : Variables} (h : vars.Distinct) {e : String × Option String}
    (he : e ∈ vars) : lookup? vars e.1 = some e.2 :=
  lookup?_of_unique (List.mem_map_of_mem he) fun _ hd hname => by
    rw [List.inj_on_of_nodup_map h hd he hname]

/-! Setting a variable. -/

theorem mem_set {vars : Variables} {name : String} {text : Option String}
    {e : String × Option String} (h : e ∈ set vars name text) : e ∈ vars ∨ e = (name, text) := by
  induction vars with
  | nil => exact Or.inr (List.mem_singleton.mp h)
  | cons d vars ih =>
      by_cases hd : d.1 = name
      · have hset : set (d :: vars) name text = (d.1, text) :: vars := by simp [set, hd]
        rw [hset] at h
        rcases List.mem_cons.mp h with rfl | h
        · exact Or.inr (by rw [hd])
        · exact Or.inl (List.mem_cons_of_mem d h)
      · have hset : set (d :: vars) name text = d :: set vars name text := by simp [set, hd]
        rw [hset] at h
        rcases List.mem_cons.mp h with rfl | h
        · exact Or.inl List.mem_cons_self
        · exact (ih h).imp_left (List.mem_cons_of_mem d)

theorem mem_names_set (vars : Variables) (name : String) (text : Option String) (n : String) :
    n ∈ (set vars name text).map (·.1) ↔ n ∈ vars.map (·.1) ∨ n = name := by
  induction vars with
  | nil => simp [set]
  | cons d vars ih =>
      by_cases hd : d.1 = name
      · simp only [set, hd, beq_self_eq_true, if_true, List.map_cons, List.mem_cons]
        tauto
      · simp only [set, beq_iff_eq, hd, if_false, List.map_cons, List.mem_cons, ih, or_assoc]

theorem distinct_set {vars : Variables} (h : vars.Distinct) (name : String)
    (text : Option String) : (set vars name text).Distinct := by
  induction vars with
  | nil => exact List.nodup_singleton name
  | cons d vars ih =>
      obtain ⟨hd, hrest⟩ := List.nodup_cons.mp h
      by_cases hname : d.1 = name
      · have hset : set (d :: vars) name text = (d.1, text) :: vars := by simp [set, hname]
        rw [hset]
        exact h
      · have hset : set (d :: vars) name text = d :: set vars name text := by simp [set, hname]
        rw [hset]
        refine List.nodup_cons.mpr ⟨?_, ih hrest⟩
        intro hmem
        exact ((mem_names_set vars name text d.1).mp hmem).elim hd hname

/-! Variables from a list. -/

theorem ofList_append_singleton (es : List (String × Option String))
    (e : String × Option String) : ofList (es ++ [e]) = set (ofList es) e.1 e.2 := by
  simp [ofList]

theorem mem_ofList {es : List (String × Option String)} {e : String × Option String}
    (h : e ∈ ofList es) : e ∈ es := by
  induction es using List.reverseRecOn with
  | nil => cases h
  | append_singleton es d ih =>
      rw [ofList_append_singleton] at h
      rcases mem_set h with h | rfl
      · exact List.mem_append_left _ (ih h)
      · exact List.mem_append_right _ (List.mem_singleton.mpr rfl)

theorem mem_names_ofList (es : List (String × Option String)) (n : String) :
    n ∈ (ofList es).map (·.1) ↔ n ∈ es.map (·.1) := by
  induction es using List.reverseRecOn with
  | nil => rfl
  | append_singleton es d ih => simp [ofList_append_singleton, mem_names_set, ih]

theorem distinct_ofList (es : List (String × Option String)) : (ofList es).Distinct := by
  induction es using List.reverseRecOn with
  | nil => exact List.nodup_nil
  | append_singleton es d ih =>
      rw [ofList_append_singleton]
      exact distinct_set ih d.1 d.2

end Variables

namespace Environment

open Variables

/-- The variables of an origin as they are written. -/
def written (env : Environment) : SettingsOrigin → List (String × Option String)
  | .environment => env.exported.map fun e => (e.1, some e.2)
  | .dotEnv =>
      match env.dotEnv with
      | none => []
      | some file => (DotEnv.read env.exported file).map fun b => (b.name, b.value)

theorem distinct_read (env : Environment) (origin : SettingsOrigin) :
    (env.read origin).Distinct := by
  cases origin with
  | environment => exact distinct_ofList _
  | dotEnv =>
      rw [read]
      cases env.dotEnv with
      | none => exact List.nodup_nil
      | some file => exact distinct_ofList _

/-- Every variable that is read is written, with its name in some case. -/
theorem mem_written_of_mem_read {env : Environment} {origin : SettingsOrigin}
    {e : String × Option String} (h : e ∈ env.read origin) :
    ∃ w ∈ env.written origin, Text.lower w.1 = e.1 ∧ w.2 = e.2 := by
  cases origin with
  | environment =>
      obtain ⟨w, hw, rfl⟩ := List.mem_map.mp (mem_ofList h)
      exact ⟨w, hw, rfl, rfl⟩
  | dotEnv =>
      rw [read] at h
      rw [written]
      cases hfile : env.dotEnv with
      | none =>
          rw [hfile] at h
          cases h
      | some file =>
          rw [hfile] at h
          obtain ⟨w, hw, rfl⟩ := List.mem_map.mp (mem_ofList h)
          exact ⟨w, mem_ofList hw, rfl, rfl⟩

/-- Every variable that is written is read under its name. -/
theorem mem_names_read {env : Environment} {origin : SettingsOrigin}
    {w : String × Option String} (h : w ∈ env.written origin) :
    Text.lower w.1 ∈ (env.read origin).map (·.1) := by
  cases origin with
  | environment =>
      refine (mem_names_ofList _ _).mpr ?_
      rw [List.map_map]
      exact List.mem_map_of_mem (f := fun e : String × Option String => Text.lower e.1) h
  | dotEnv =>
      rw [written] at h
      rw [read]
      cases hfile : env.dotEnv with
      | none =>
          rw [hfile] at h
          cases h
      | some file =>
          rw [hfile] at h
          obtain ⟨v, hv, hname⟩ := List.mem_map.mp
            ((mem_names_ofList _ _).mpr (List.mem_map_of_mem (f := (·.1)) h))
          refine (mem_names_ofList _ _).mpr ?_
          rw [List.map_map]
          exact List.mem_map.mpr ⟨v, hv, congrArg Text.lower hname⟩

end Environment

end Typeahead
