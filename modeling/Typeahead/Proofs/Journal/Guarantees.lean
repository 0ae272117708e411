import Typeahead.Proofs.Journal.Steps

/-!
# What a commit sends

For programs over classes whose search configurations all write on commit.  Only a commit
that makes a root transaction last sends document writes, and those are the captured writes
of this root transaction that hang on no undone transaction, in their order.  A savepoint
that a failed flush broke and that is then left loses its rows but not its writes, and these
are exactly the writes of a commit that have lost their rows.
-/

namespace Typeahead

namespace Journal

variable {catalog : Catalog} {backend : Backend}

/-- An instruction that makes the rows of a root transaction last, and sends writes. -/
structure Commits (catalog : Catalog) (backend : Backend) (j j' : Journal)
    (outcome : Except Failure (Option Page)) (root : Nat) (sent : List PendingWrite) : Prop
    extends Delivers catalog backend j j' outcome root [] sent where
  writes : j'.writes = j.writes ++ sent.map PendingWrite.call

/-- What one instruction does after a run, without listeners. -/
theorem step_spec (hcatalog : catalog.OnCommit) {j : Journal} (hj : j.Sound catalog backend)
    (i : Instruction) :
    ((j.step catalog backend i).2.writes = j.writes ∧
        (i = .session .commit → ∃ e, (j.step catalog backend i).1 = .error e)) ∨
      i = .session .commit ∧ ∃ root sent, j.Commits catalog backend (j.step catalog backend i).2
        (j.step catalog backend i).1 root sent := by
  rcases (step_sends hj i).2 with ⟨heard, hpasses⟩ | ⟨hi, root, heard, sent, hdelivers⟩
  · obtain rfl := hpasses.unheard (Or.inr hcatalog)
    refine Or.inl ⟨hpasses.writes.trans (List.append_nil _), fun hi => ?_⟩
    obtain ⟨e, _, _, herror⟩ := hpasses.fails hi
    exact ⟨e, herror⟩
  · obtain rfl := hdelivers.unheard (Or.inr hcatalog)
    refine Or.inr ⟨hi, root, sent, hdelivers, ?_⟩
    rw [hdelivers.calls, List.append_nil]

/-- After any run, the only instruction that sends document writes is a commit.  Unless it fails
before that, it sends the writes due in its root transaction, all of them when it succeeds and
writes are switched on.  One of these has lost its rows exactly when a transaction around it was
left after a failed flush had broken it. -/
theorem step_sends_undone_iff_left (hcatalog : catalog.OnCommit) (program : List Instruction)
    (i : Instruction) :
    let j := Journal.initial.run catalog backend program
    let j' := (j.step catalog backend i).2
    j.running = Running.initial.run catalog backend program ∧
      j.running.step catalog backend i = ((j.step catalog backend i).1, j'.running) ∧
      (j'.writes = j.writes ∧
          (i = .session .commit → ∃ e, (j.step catalog backend i).1 = .error e) ∨
        i = .session .commit ∧ ∃ root sent,
          root ∈ j'.history.met .committed ∧ sent <+: j'.history.due root ∧
          j'.writes = j.writes ++ sent.map PendingWrite.call ∧
          (j.running.scopes.enabled = true → (j.step catalog backend i).1 = .ok none →
            sent = j'.history.due root) ∧
          ∀ w ∈ j'.history.due root,
            j'.history.Undoes w ↔ ∃ id ∈ w.path, id ∈ j'.history.met .left) := by
  intro j j'
  refine ⟨run_running catalog backend program .initial, rfl, ?_⟩
  have hj : j.Sound catalog backend := sound_initial.run program
  rcases step_spec hcatalog hj i with hsame | ⟨hi, root, sent, hcommits⟩
  · exact Or.inl hsame
  · refine Or.inr ⟨hi, root, sent, ?_, hcommits.part, hcommits.writes, hcommits.all,
      hcommits.undone⟩
    rw [hcommits.commits]
    exact List.mem_append_right _ (List.mem_singleton_self root)

/-- The table of places with a name. -/
def placeTable : Table where
  name := "places"
  columns := [⟨"id", "id", .generic .integer, true, false⟩,
    ⟨"name", "name", .generic .string, false, false⟩]

/-- A class of places with a name. -/
def placeModel : Model := ⟨"Place", some placeTable⟩

/-- The configuration that places are searched with. -/
def placeIndex : Index where
  model := placeModel
  settings := ⟨.standard, .standard⟩
  ownSettings := true
  options := AutocompleteSettings.standard.toOptions
  attr := .text "name"
  mode := .word
  specs := [⟨.text "name", .word, .bool false, []⟩]
  subFields := [.raw (.text "name") (.text "name")]
  searchFields := [.text "name"]
  name := .text "places"
  body := none
  fieldTypes := .model placeModel

/-- The index of places with a client. -/
def placeSearchable : Searchable := ⟨placeIndex, ⟨.text "localhost", ⟨.standard, .standard⟩⟩⟩

def places : Catalog := [⟨placeModel, none, [placeSearchable]⟩]

/-- A backend that takes every call. -/
def accepting : Backend := fun _ => .ok (.dict [(.text "result", .text "ok")])

theorem places_onCommit : places.OnCommit := by
  intro e he x hx
  rw [List.mem_singleton.mp he] at hx
  rw [List.mem_singleton.mp hx]
  rfl

/-- A place is flushed in a savepoint, the next flush fails because a place has no name, and
the savepoint is left. -/
def leaving : List Instruction :=
  [.session (.add "bern" "Place" [("name", .text "Bern")]),
    .session (.beginNested "trip"),
    .session (.add "basel" "Place" [("name", .text "Basel")]),
    .session .flush,
    .session (.add "nowhere" "Place" []),
    .session .flush,
    .session (.leave "trip")]

/-- The run of `leaving`. -/
def left : Journal := Journal.initial.run places accepting leaving

/-- The run of `leaving` and a commit. -/
def leftCommitted : Journal := (left.step places accepting (.session .commit)).2

theorem left_eq : Journal.initial.run places accepting leaving = left := rfl

theorem leftCommitted_eq : (left.step places accepting (.session .commit)).2 = leftCommitted := rfl

theorem length_writes_left : left.writes.length = 0 ∧ leftCommitted.writes.length = 2 := by
  decide +kernel

theorem step_sends_undone_iff_left_leaving :
    places.OnCommit ∧ ∃ root sent, root ∈ leftCommitted.history.met .committed ∧
      sent <+: leftCommitted.history.due root ∧ sent.length = 2 ∧
      leftCommitted.writes = left.writes ++ sent.map PendingWrite.call ∧
      ∀ w ∈ leftCommitted.history.due root,
        leftCommitted.history.Undoes w ↔ ∃ id ∈ w.path, id ∈ leftCommitted.history.met .left := by
  refine ⟨places_onCommit, ?_⟩
  obtain ⟨hbefore, hafter⟩ := length_writes_left
  have hstep := @step_sends_undone_iff_left _ accepting places_onCommit leaving (.session .commit)
  dsimp only at hstep
  rw [left_eq, leftCommitted_eq] at hstep
  rcases hstep.2.2 with ⟨hsame, _⟩ | ⟨_, root, sent, hroot, hpart, hwrites, _, hundone⟩
  · rw [hsame, hbefore] at hafter
    cases hafter
  · refine ⟨root, sent, hroot, hpart, ?_, hwrites, hundone⟩
    rw [hwrites, List.length_append, List.length_map, hbefore, Nat.zero_add] at hafter
    exact hafter

theorem due_leftCommitted : (leftCommitted.history.due 0).length = 2 ∧
    leftCommitted.history.met .committed = left.history.met .committed ++ [0] ∧
    ∃ w ∈ leftCommitted.history.due 0, leftCommitted.history.Undoes w ∧
      (Row.find? leftCommitted.running.session.rows "places" w.id).isNone = true := by
  decide +kernel

/-- The place of the savepoint has lost its row, and its document is sent all the same. -/
theorem exists_undone_sent_leaving :
    ∃ w ∈ leftCommitted.history.captures, leftCommitted.history.Undoes w ∧
      (Row.find? leftCommitted.running.session.rows "places" w.id).isNone = true ∧
      w.call ∈ leftCommitted.writes := by
  have hsound : left.Sound places accepting := sound_initial.run leaving
  obtain ⟨hbefore, hafter⟩ := length_writes_left
  obtain ⟨hlength, hcommitted, w, hw, hundoes, hgone⟩ := due_leftCommitted
  have hstep := step_spec places_onCommit hsound (.session .commit)
  rw [leftCommitted_eq] at hstep
  rcases hstep with ⟨hsame, _⟩ | ⟨_, root, sent, hcommits⟩
  · rw [hsame, hbefore] at hafter
    cases hafter
  · obtain rfl : root = 0 := by
      rw [hcommits.commits] at hcommitted
      exact List.singleton_inj.mp (List.append_cancel_left hcommitted)
    have hsent : sent = leftCommitted.history.due 0 := by
      refine hcommits.part.eq_of_length ?_
      rw [hcommits.writes, List.length_append, List.length_map, hbefore, Nat.zero_add] at hafter
      rw [hafter, hlength]
    refine ⟨w, (List.mem_filter.mp hw).1, hundoes, hgone, ?_⟩
    rw [hcommits.writes, hsent]
    exact List.mem_append_right _ (List.mem_map_of_mem hw)

end Journal

end Typeahead
