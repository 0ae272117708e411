import Typeahead.Index.Document
import Typeahead.Proofs.Outcome
import Typeahead.Proofs.Options

/-!
# What a document depends on

The write of a change is made from a few attributes of an object, `neededNames`.  Two
objects that agree on those have the same write, whatever else they hold.
-/

namespace Typeahead

namespace Index

/-- The id and the body of the write of a change, for an object with its attributes at
hand.  The body is made first. -/
def writeParts (index : Index) (action : Action) (object : Options) :
    Except Failure (Value × Value) := do
  let body ← index.bodyFor action object
  let key ← documentId object
  return (key, body)

theorem bodyFor_of_writeParts {index : Index} {action : Action} {object parts}
    (h : index.writeParts action object = .ok parts) :
    ∃ body, index.bodyFor action object = .ok body := by
  obtain ⟨body, hbody, _⟩ := (Outcome.bind_eq_ok_iff _ _ _).mp h
  exact ⟨body, hbody⟩

/-- The names that the write of a change reads. -/
def neededNames (index : Index) : Action → List String
  | .delete => ["id"]
  | _ => index.documentAttrs.filterMap Value.text?

theorem id_mem_neededNames (index : Index) (action : Action) :
    "id" ∈ index.neededNames action := by
  cases action with
  | delete => simp [neededNames]
  | index => simp [neededNames, documentAttrs, Value.text?]
  | update => simp [neededNames, documentAttrs, Value.text?]

theorem documentEntry_congr {o p : Options} {a : Value}
    (h : ∀ n ∈ a.text?, o.get? n = p.get? n) : documentEntry o a = documentEntry p a := by
  cases a with
  | text n =>
      have hn : o.get? n = p.get? n := h n rfl
      simp [documentEntry, Options.getD, hn]
  | _ => rfl

theorem document_congr (index : Index) {o p : Options}
    (h : ∀ n ∈ index.documentAttrs.filterMap Value.text?, o.get? n = p.get? n) :
    index.document o = index.document p := by
  have hentries : index.documentAttrs.mapM (documentEntry o) =
      index.documentAttrs.mapM (documentEntry p) := by
    generalize index.documentAttrs = attrs at h
    induction attrs with
    | nil => rfl
    | cons a attrs ih =>
        have ha : documentEntry o a = documentEntry p a := by
          refine documentEntry_congr fun n hn => h n ?_
          exact List.mem_filterMap.mpr ⟨a, List.mem_cons_self, hn⟩
        have htail : attrs.mapM (documentEntry o) = attrs.mapM (documentEntry p) := by
          refine ih fun n hn => h n ?_
          obtain ⟨b, hb, hbn⟩ := List.mem_filterMap.mp hn
          exact List.mem_filterMap.mpr ⟨b, List.mem_cons_of_mem _ hb, hbn⟩
        rw [List.mapM_cons, List.mapM_cons, ha, htail]
  rw [document, document, hentries]

/-- Objects that agree on the needed names have the same write. -/
theorem writeParts_congr (index : Index) (action : Action) {o p : Options}
    (h : ∀ n ∈ index.neededNames action, o.get? n = p.get? n) :
    index.writeParts action o = index.writeParts action p := by
  have hid : documentId o = documentId p := by
    simp only [documentId, h "id" (index.id_mem_neededNames action)]
  cases action with
  | delete => rw [writeParts, writeParts, hid, bodyFor, bodyFor]
  | index =>
      have hdocument := index.document_congr h
      rw [writeParts, writeParts, hid, bodyFor, bodyFor, hdocument]
      all_goals simp
  | update =>
      have hdocument := index.document_congr h
      rw [writeParts, writeParts, hid, bodyFor, bodyFor, hdocument]
      all_goals simp

end Index

end Typeahead
