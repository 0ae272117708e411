import Typeahead.FieldTypes
import Typeahead.Proofs.Outcome

/-!
# Sources asked in turn

A source that answers with nothing is `Silent` on a field.  Of several sources the first one that
is not silent decides, `FirstAnswer`: with its type, or with its failure, and the sources behind it
are not asked.  Chains may hold chains.  `FieldTypes.leaves` are the sources that are asked in the
end, and chains with the same leaves answer alike.
-/

namespace Typeahead

namespace FieldTypes

mutual

/-- The sources that are asked in the end, in order, without the chains around them. -/
def leaves : FieldTypes → List FieldTypes
  | .properties entries => [.properties entries]
  | .model m => [.model m]
  | .table t => [.table t]
  | .chain sources => leavesOf sources

/-- The leaves of several sources. -/
def leavesOf : List FieldTypes → List FieldTypes
  | [] => []
  | s :: rest => leaves s ++ leavesOf rest

end

/-- A source gives an answer, and it is empty. -/
def Silent (field : Value) (s : FieldTypes) : Prop :=
  ∃ found, resolve field s = .ok found ∧ found.truthy = false

/-- What the first source that is not silent says, null when all are silent. -/
inductive FirstAnswer (field : Value) : List FieldTypes → Except Failure Value → Prop
  | silent {sources : List FieldTypes} (h : ∀ s ∈ sources, Silent field s) :
      FirstAnswer field sources (.ok .null)
  | decided {before after : List FieldTypes} {s : FieldTypes}
      (hbefore : ∀ b ∈ before, Silent field b) (hs : ¬ Silent field s) :
      FirstAnswer field (before ++ s :: after) (resolve field s)

variable {field : Value} {s : FieldTypes}

theorem FirstAnswer.cons {sources : List FieldTypes} {outcome : Except Failure Value}
    (hs : Silent field s) (h : FirstAnswer field sources outcome) :
    FirstAnswer field (s :: sources) outcome := by
  cases h with
  | silent h => exact .silent (List.forall_mem_cons.mpr ⟨hs, h⟩)
  | decided hbefore ht =>
      rw [← List.cons_append]
      exact .decided (List.forall_mem_cons.mpr ⟨hs, hbefore⟩) ht

theorem resolveFirst_cons {found : Value} (h : resolve field s = .ok found)
    (rest : List FieldTypes) :
    resolveFirst field (s :: rest) =
      if found.truthy then .ok found else resolveFirst field rest := by
  rw [resolveFirst, h]
  rfl

/-- A silent source is passed over. -/
theorem resolveFirst_of_silent (hs : Silent field s) (rest : List FieldTypes) :
    resolveFirst field (s :: rest) = resolveFirst field rest := by
  obtain ⟨found, hfound, hempty⟩ := hs
  rw [resolveFirst_cons hfound, if_neg (Bool.eq_false_iff.mp hempty)]

/-- A source that is not silent decides. -/
theorem resolveFirst_of_not_silent (hs : ¬ Silent field s) (rest : List FieldTypes) :
    resolveFirst field (s :: rest) = resolve field s := by
  cases hfound : resolve field s with
  | error e =>
      rw [resolveFirst, hfound]
      rfl
  | ok found =>
      cases htruthy : found.truthy with
      | true => rw [resolveFirst_cons hfound, if_pos htruthy]
      | false => exact absurd ⟨found, hfound, htruthy⟩ hs

theorem resolveFirst_append_of_silent {before : List FieldTypes}
    (h : ∀ b ∈ before, Silent field b) (after : List FieldTypes) :
    resolveFirst field (before ++ after) = resolveFirst field after := by
  induction before with
  | nil => rfl
  | cons b before ih =>
      obtain ⟨hb, hbefore⟩ := List.forall_mem_cons.mp h
      rw [List.cons_append, resolveFirst_of_silent hb, ih hbefore]

theorem firstAnswer_resolveFirst (field : Value) (sources : List FieldTypes) :
    FirstAnswer field sources (resolveFirst field sources) := by
  induction sources with
  | nil => exact .silent fun _ => List.not_mem_nil.elim
  | cons s rest ih =>
      by_cases hs : Silent field s
      · rw [resolveFirst_of_silent hs]
        exact ih.cons hs
      · rw [resolveFirst_of_not_silent hs, ← List.nil_append (s :: rest)]
        exact .decided (fun _ => List.not_mem_nil.elim) hs

/-- Asking in turn finds the first answer. -/
theorem resolveFirst_eq_iff {sources : List FieldTypes} {outcome : Except Failure Value} :
    resolveFirst field sources = outcome ↔ FirstAnswer field sources outcome := by
  constructor
  · rintro rfl
    exact firstAnswer_resolveFirst field sources
  · intro h
    cases h with
    | silent h => simpa [resolveFirst] using resolveFirst_append_of_silent h []
    | decided hbefore hs =>
        rw [resolveFirst_append_of_silent hbefore, resolveFirst_of_not_silent hs]

theorem resolve_chain (sources : List FieldTypes) :
    resolve field (.chain sources) = resolveFirst field sources := by
  rw [resolve]

/-- The first source is asked first. -/
theorem resolve_cons {found : Value} (h : resolve field s = .ok found)
    (others : List FieldTypes) :
    resolve field (.chain (s :: others)) =
      if found.truthy then .ok found else resolveFirst field others := by
  rw [resolve_chain, resolveFirst_cons h]

/-- A chain in front of other sources is asked like its own sources in front of them. -/
theorem resolveFirst_chain_cons (sources rest : List FieldTypes) :
    resolveFirst field (.chain sources :: rest) = resolveFirst field (sources ++ rest) := by
  have hfirst := firstAnswer_resolveFirst field sources
  generalize hsources : resolveFirst field sources = outcome at hfirst
  cases hfirst with
  | silent h =>
      have hchain : Silent field (.chain sources) :=
        ⟨.null, (resolve_chain sources).trans hsources, rfl⟩
      rw [resolveFirst_of_silent hchain, resolveFirst_append_of_silent h]
  | @decided before after s hbefore hs =>
      have hchain : ¬ Silent field (.chain (before ++ s :: after)) := by
        rintro ⟨found, hfound, hempty⟩
        rw [resolve_chain, hsources] at hfound
        exact hs ⟨found, hfound, hempty⟩
      rw [resolveFirst_of_not_silent hchain, resolve_chain, hsources, List.append_assoc,
        resolveFirst_append_of_silent hbefore, List.cons_append, resolveFirst_of_not_silent hs]

-- Other sources are carried along behind, as a chain opens into its own ones in front of them.
mutual

theorem resolveFirst_leaves_append : ∀ (s : FieldTypes) (rest : List FieldTypes),
    resolveFirst field (leaves s ++ rest) = resolveFirst field (s :: rest)
  | .properties _, _ => rfl
  | .model _, _ => rfl
  | .table _, _ => rfl
  | .chain sources, rest => by
      rw [leaves, resolveFirst_leavesOf_append sources rest, resolveFirst_chain_cons]

theorem resolveFirst_leavesOf_append : ∀ sources rest : List FieldTypes,
    resolveFirst field (leavesOf sources ++ rest) = resolveFirst field (sources ++ rest)
  | [], _ => rfl
  | s :: sources, rest => by
      rw [leavesOf, List.append_assoc, resolveFirst_leaves_append s, List.cons_append, resolveFirst,
        resolveFirst_leavesOf_append sources rest, ← resolveFirst]

end

/-- Chains among the sources can be left out for their leaves. -/
theorem resolveFirst_leavesOf (sources : List FieldTypes) :
    resolveFirst field (leavesOf sources) = resolveFirst field sources :=
  calc resolveFirst field (leavesOf sources)
      = resolveFirst field (leavesOf sources ++ []) := by rw [List.append_nil]
    _ = resolveFirst field (sources ++ []) := resolveFirst_leavesOf_append sources []
    _ = resolveFirst field sources := by rw [List.append_nil]

/-- A chain gives the first answer of any sources that have the same leaves. -/
theorem resolve_chain_eq_iff {sources others : List FieldTypes}
    (h : leavesOf sources = leavesOf others) {outcome : Except Failure Value} :
    resolve field (.chain sources) = outcome ↔ FirstAnswer field others outcome := by
  have hsame : resolve field (.chain sources) = resolveFirst field others :=
    calc resolve field (.chain sources)
        = resolveFirst field sources := resolve_chain sources
      _ = resolveFirst field (leavesOf sources) := (resolveFirst_leavesOf sources).symm
      _ = resolveFirst field (leavesOf others) := by rw [h]
      _ = resolveFirst field others := resolveFirst_leavesOf others
  rw [hsame, resolveFirst_eq_iff]

end FieldTypes

end Typeahead
