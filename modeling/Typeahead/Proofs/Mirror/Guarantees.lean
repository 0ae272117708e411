import Typeahead.Proofs.Journal.Guarantees
import Typeahead.Proofs.Mirror.Changing

/-!
# What an index mirrors

After a commit the index holds one document for each row and no other one, as long as no
flush gives a new object the id of a removed one.  When one does, the write of the new
object is sent before the removal of the old document, which takes the new one along.
-/

namespace Typeahead

/-- An index holds a document for each row, under its key, and no other one. -/
structure Mirrors (x : Searchable) (calls : List Call) (rows : List Row) : Prop where
  distinct : rows.Pairwise fun r q => r.key.same q.key = false
  held : ∀ r ∈ rows, ∃ doc, Call.documentUnder calls r.key = some doc ∧ r.HasDocument x doc
  only : ∀ k doc, Call.documentUnder calls k = some doc → ∃ r ∈ rows, r.key.same k = true

theorem mirrors_of_rel {x : Searchable} {calls : List Call} {table : String} {rows : List Row}
    (hrows : Row.Tabled table rows)
    (h : ∀ k, Option.Rel (Row.HasDocument x) (Row.find? rows table k)
      (Call.documentUnder calls k)) : Mirrors x calls rows := by
  refine ⟨hrows.distinct, fun r hr => ?_, fun k doc hdoc => ?_⟩
  · have hk := h r.key
    rw [hrows.find?_key hr] at hk
    cases hdoc : Call.documentUnder calls r.key with
    | none =>
        rw [hdoc] at hk
        cases hk
    | some doc =>
        rw [hdoc] at hk
        cases hk with
        | some hhas => exact ⟨doc, rfl, hhas⟩
  · have hk := h k
    rw [hdoc] at hk
    cases hr : Row.find? rows table k with
    | none =>
        rw [hr] at hk
        cases hk
    | some r =>
        obtain ⟨hmem, _, hsame⟩ := Row.find?_eq_some hr
        exact ⟨r, hmem, hsame⟩

namespace Command

/-- Adding objects of one class, each with an id that tells it apart or none, setting their
attributes apart from the id, deleting them, flushing and committing. -/
def Plain (name : String) (t : Table) : Command → Prop
  | .add _ entity values => entity = name ∧ (values.getD "id" .null).IsId
  | .set _ attr _ => attr ∈ t.attrs ∧ attr ≠ "id"
  | .delete _ => True
  | .flush => True
  | .commit => True
  | _ => False

/-- Whether a command flushes. -/
def flushes : Command → Bool
  | .flush | .commit => true
  | _ => false

end Command

/-- The sessions that a program of plain commands gets to, on an empty table, in which every
flush succeeds and is as `P` says of the sessions before and after it. -/
inductive Reaches (c : Surroundings) (name : String) (t : Table) (P : Session → Session → Prop) :
    Session → Prop where
  | empty : Reaches c name t P .empty
  | step {s : Session} {command : Command} (h : Reaches c name t P s)
      (hplain : command.Plain name t)
      (hflush : command.flushes = true → (c.perform command s).1.isOk = true ∧
        P s (c.perform command s).2) : Reaches c name t P (c.perform command s).2

namespace Surroundings

open Session

variable {c : Surroundings} {name : String} {t : Table} {x : Searchable} {s w : Session}

theorem faithful_empty (name : String) (t : Table) (x : Searchable) :
    Session.empty.Faithful name t x := by
  refine ⟨⟨sound_empty, Row.tabled_nil t.name, ?_, List.nodup_nil, ?_, ?_, ?_, ?_⟩, Nat.zero_le 1,
    fun _ => .none⟩
  · exact fun o ho => absurd ho List.not_mem_nil
  · exact fun o ho => absurd ho List.not_mem_nil
  · exact fun o ho => absurd ho List.not_mem_nil
  · exact fun o ho => absurd ho List.not_mem_nil
  · exact fun o ho => absurd ho.1 List.not_mem_nil

/-- A command that ends with nothing to say succeeds when its computation does. -/
theorem ok_of_isOk {y : Exec Unit}
    (h : ((y >>= fun _ => pure none : Exec (Option Page)) s).1.isOk = true) :
    y s = (.ok (), ((y >>= fun _ => pure none : Exec (Option Page)) s).2) := by
  rw [Exec.bind_apply] at h ⊢
  rcases hy : y s with ⟨r, v⟩
  rw [hy] at h
  cases r with
  | ok a => rfl
  | error e => cases h

/-- A plain command leaves a faithful session when its flush, if any, reuses no id. -/
theorem faithful_step (hc : c.Replicates name t x) (hs : s.Faithful name t x) {command : Command}
    (hplain : command.Plain name t)
    (hflush : command.flushes = true → (c.perform command s).1.isOk = true ∧
      ¬ s.Reuses (c.perform command s).2) : (c.perform command s).2.Faithful name t x := by
  have hquiet {y : Exec Unit} (hy : Exec.Follows (Exec.Preserves (Session.Faithful name t x)) y) :
      ((y >>= fun _ => pure none : Exec (Option Page)) s).2.Faithful name t x :=
    (Exec.follows_bind hy fun _ => Exec.follows_pure _) s hs
  cases command with
  | add object entity values =>
      obtain ⟨rfl, hid⟩ := hplain
      exact hquiet (preserves_add hc object hid)
  | set object attr value => exact hquiet (preserves_set hc object value hplain.1 hplain.2)
  | delete object => exact hquiet (preserves_delete c object)
  | flush =>
      obtain ⟨hok, hfree⟩ := hflush rfl
      have hreplays := flush_ok hc hs (ok_of_isOk hok)
      exact ⟨hreplays.regular hfree, hreplays.shallow, hreplays.mirrored hfree⟩
  | commit =>
      obtain ⟨hok, hfree⟩ := hflush rfl
      obtain ⟨hreplays, _⟩ := commit_spec hc hs (ok_of_isOk hok)
      exact ⟨hreplays.regular hfree, hreplays.shallow, hreplays.mirrored hfree⟩
  | _ => exact hplain.elim

/-- As long as no flush reuses an id, a program of plain commands gets to faithful sessions. -/
theorem faithful_of_reaches (hc : c.Replicates name t x)
    (hs : Reaches c name t (fun s w => ¬ s.Reuses w) s) : s.Faithful name t x := by
  induction hs with
  | empty => exact faithful_empty name t x
  | step _ hplain hflush ih => exact faithful_step hc ih hplain hflush

/-- After any program of plain commands in which no flush reused an id, a commit leaves an
index that mirrors the rows if it reuses none either.  It does so exactly if no row is left
under the id of an object that it removed. -/
theorem commit_mirrors_iff (hc : c.Replicates name t x)
    (hs : Reaches c name t (fun s w => ¬ s.Reuses w) s)
    (hok : (c.perform .commit s).1.isOk = true) :
    let w := (c.perform .commit s).2
    (¬ s.Reuses w → Mirrors x w.sent w.rows) ∧
      (Mirrors x w.sent w.rows ↔ ∀ d ∈ s.doomed, Row.find? w.rows t.name d.label = none) := by
  intro w
  have hfaithful := faithful_of_reaches hc hs
  have hcommit : c.commit s = (.ok (), w) := ok_of_isOk hok
  obtain ⟨hreplays, hdocument⟩ := commit_spec hc hfaithful hcommit
  have hlabel : ∀ d ∈ s.doomed, d.label.IsId := fun d hd =>
    (hfaithful.regular.objects d (hfaithful.regular.doomed_spec hd).1).label
  have hmirrors : (∀ d ∈ s.doomed, Row.find? w.rows t.name d.label = none) →
      Mirrors x w.sent w.rows := by
    intro hvacant
    refine mirrors_of_rel hreplays.tabled fun k => ?_
    rw [hdocument]
    by_cases hk : ∃ d ∈ s.doomed, d.label.same k = true
    · obtain ⟨d, hd, hsame⟩ := hk
      rw [hreplays.gone d hd k hsame, ← hreplays.tabled.find?_congr (hlabel d hd) hsame,
        hvacant d hd]
      exact .none
    · refine hreplays.matched k fun d hd => ?_
      rw [Bool.eq_false_iff]
      exact fun hsame => hk ⟨d, hd, hsame⟩
  refine ⟨fun hfree => hmirrors fun d hd => ?_, fun hmirrored d hd => ?_, hmirrors⟩
  · exact hreplays.removed hfree d hd d.label (hlabel d hd).refl
  · -- a row under the id of a removed object has no document
    cases hrow : Row.find? w.rows t.name d.label with
    | none => rfl
    | some r =>
        obtain ⟨hmem, _, hsame⟩ := Row.find?_eq_some hrow
        obtain ⟨doc, hdoc, _⟩ := hmirrored.held r hmem
        have hback := (hreplays.tabled.ids r hmem).symm hsame
        rw [hdocument, hreplays.gone d hd r.key hback] at hdoc
        cases hdoc

end Surroundings

namespace Journal

/-- Places, with writes switched on. -/
def placing : Surroundings := ⟨places, accepting, true⟩

theorem replicates_placing : placing.Replicates "Place" placeTable placeSearchable where
  enabled := rfl
  onCommit := places_onCommit
  table := rfl
  once := by decide
  keyed := by decide
  searchable := rfl

/-- A place is to be stored. -/
def founded : Session :=
  (placing.perform (.add "bern" "Place" [("name", .text "Bern")]) .empty).2

/-- The place is stored, and its document is sent. -/
def settled : Session := (placing.perform .commit founded).2

/-- The place is to be removed. -/
def abandoned : Session := (placing.perform (.delete "bern") settled).2

/-- Another place, with an id or none, is to be stored at the same time. -/
def moved (id : Value) : Session :=
  (placing.perform (.add "basel" "Place" [("id", id), ("name", .text "Basel")]) abandoned).2

instance (s t : Session) : Decidable (s.Reuses t) :=
  inferInstanceAs (Decidable (∃ o ∈ t.objectsOf s.fresh, ∃ d ∈ t.objectsOf s.marked,
    d.label.same o.label = true))

theorem settled_facts : (placing.perform .commit founded).1.isOk = true ∧
    ¬ founded.Reuses (placing.perform .commit founded).2 := by
  decide +kernel

theorem reaches_moved {P : Session → Session → Prop}
    (hP : ∀ s w, ¬ s.Reuses w → P s w) {id : Value} (hid : id.IsId) :
    Reaches placing "Place" placeTable P (moved id) := by
  have hnull : Value.null.IsId := ⟨rfl, rfl⟩
  have hfounded : Reaches placing "Place" placeTable P founded :=
    .step (.empty) ⟨rfl, hnull⟩ nofun
  have hsettled : Reaches placing "Place" placeTable P settled :=
    .step hfounded trivial fun _ => ⟨settled_facts.1, hP _ _ settled_facts.2⟩
  have habandoned : Reaches placing "Place" placeTable P abandoned :=
    .step hsettled trivial nofun
  exact .step habandoned ⟨rfl, hid⟩ nofun

/-- The other place gets an id of its own. -/
theorem commit_mirrors_iff_moved :
    placing.Replicates "Place" placeTable placeSearchable ∧
      Reaches placing "Place" placeTable (fun s w => ¬ s.Reuses w) (moved .null) ∧
      (placing.perform .commit (moved .null)).1.isOk = true ∧
      ¬ (moved .null).Reuses (placing.perform .commit (moved .null)).2 ∧
      (placing.perform .commit (moved .null)).2.rows.length = 1 ∧
      Mirrors placeSearchable (placing.perform .commit (moved .null)).2.sent
        (placing.perform .commit (moved .null)).2.rows := by
  have hreaches : Reaches placing "Place" placeTable (fun s w => ¬ s.Reuses w) (moved .null) :=
    reaches_moved (fun _ _ h => h) ⟨rfl, rfl⟩
  have hfacts : (placing.perform .commit (moved .null)).1.isOk = true ∧
      ¬ (moved .null).Reuses (placing.perform .commit (moved .null)).2 ∧
      (placing.perform .commit (moved .null)).2.rows.length = 1 := by
    decide +kernel
  obtain ⟨hok, hfree, hlength⟩ := hfacts
  exact ⟨replicates_placing, hreaches, hok, hfree, hlength,
    (Surroundings.commit_mirrors_iff replicates_placing hreaches hok).1 hfree⟩

/-- The other place takes the id of the removed one: its row is there, but the removal of the
old document is sent last and takes the new document along. -/
theorem not_mirrors_moved :
    Reaches placing "Place" placeTable (fun _ _ => True) (moved (.int 1)) ∧
      (placing.perform .commit (moved (.int 1))).1.isOk = true ∧
      (Row.find? (placing.perform .commit (moved (.int 1))).2.rows "places" (.int 1)).isSome ∧
      Call.documentUnder (placing.perform .commit (moved (.int 1))).2.sent (.int 1) = none ∧
      ¬ Mirrors placeSearchable (placing.perform .commit (moved (.int 1))).2.sent
        (placing.perform .commit (moved (.int 1))).2.rows := by
  have hfacts : (placing.perform .commit (moved (.int 1))).1.isOk = true ∧
      (Row.find? (placing.perform .commit (moved (.int 1))).2.rows "places" (.int 1)).isSome ∧
      (Call.documentUnder (placing.perform .commit (moved (.int 1))).2.sent (.int 1)).isNone ∧
      ∃ r ∈ (placing.perform .commit (moved (.int 1))).2.rows,
        (Call.documentUnder (placing.perform .commit (moved (.int 1))).2.sent r.key).isNone := by
    decide +kernel
  obtain ⟨hok, hrow, hgone, r, hr, hnone⟩ := hfacts
  refine ⟨reaches_moved (fun _ _ _ => trivial) ⟨rfl, by simp [Value.same]⟩, hok, hrow,
    Option.isNone_iff_eq_none.mp hgone, fun hmirrors => ?_⟩
  obtain ⟨doc, hdoc, _⟩ := hmirrors.held r hr
  rw [hdoc] at hnone
  cases hnone

end Journal

end Typeahead
