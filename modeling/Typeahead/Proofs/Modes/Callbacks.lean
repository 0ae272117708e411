import Typeahead.Proofs.Listening.Classes

/-!
# The two modes

The same classes with their writes put off until the commit, or sent while flushing.  Which of
the two it is decides when changes are written, but not what rows are stored, nor what the
documents say.
-/

namespace Typeahead

namespace Index

/-- The configuration with its writes put off until the commit, or not. -/
def withCallbacks (index : Index) (onCommit : Bool) : Index :=
  { index with options := index.options.set "commit_callbacks" (.bool onCommit) }

@[simp]
theorem writesOnCommit_withCallbacks (index : Index) (onCommit : Bool) :
    (index.withCallbacks onCommit).writesOnCommit = onCommit := by
  rw [writesOnCommit, option, withCallbacks, Options.getD_set, if_pos rfl]
  rfl

end Index

/-- A search configuration in one of the modes. -/
def Searchable.withCallbacks (x : Searchable) (onCommit : Bool) : Searchable :=
  { x with index := x.index.withCallbacks onCommit }

/-- A class with all its search configurations in one of the modes. -/
def Entity.withCallbacks (e : Entity) (onCommit : Bool) : Entity :=
  { e with searchables := e.searchables.map fun x => x.withCallbacks onCommit }

namespace Catalog

/-- The classes with all their search configurations in one of the modes. -/
def withCallbacks (c : Catalog) (onCommit : Bool) : Catalog :=
  c.map fun e => e.withCallbacks onCommit

variable (c : Catalog) (onCommit : Bool) (name : String)

theorem lineage_withCallbacks :
    (c.withCallbacks onCommit).lineage name =
      (c.lineage name).map fun e => e.withCallbacks onCommit := by
  induction c generalizing name with
  | nil => rfl
  | cons e earlier ih =>
      have hmodel : (e.withCallbacks onCommit).model = e.model := rfl
      have hparent : (e.withCallbacks onCommit).parent = e.parent := rfl
      rw [withCallbacks, List.map_cons, ← withCallbacks, lineage, lineage, hmodel, hparent]
      split
      · cases e.parent with
        | none => rfl
        | some p => exact congrArg (e.withCallbacks onCommit :: ·) (ih p)
      · exact ih name

@[simp]
theorem table?_withCallbacks : (c.withCallbacks onCommit).table? name = c.table? name := by
  rw [table?, table?, lineage_withCallbacks]
  cases c.lineage name with
  | nil => rfl
  | cons e rest => rfl

@[simp]
theorem baseName_withCallbacks : (c.withCallbacks onCommit).baseName name = c.baseName name := by
  rw [baseName, baseName, lineage_withCallbacks, List.getLast?_map]
  cases (c.lineage name).getLast? with
  | none => rfl
  | some e => rfl

@[simp]
theorem baseNames_withCallbacks : (c.withCallbacks onCommit).baseNames = c.baseNames := by
  rw [baseNames, baseNames, withCallbacks, List.filter_map, List.foldr_map]
  rfl

theorem searchable?_withCallbacks :
    (c.withCallbacks onCommit).searchable? name =
      (c.searchable? name).map fun x => x.withCallbacks onCommit := by
  rw [searchable?, searchable?, lineage_withCallbacks]
  induction c.lineage name with
  | nil => rfl
  | cons e rest ih =>
      rw [List.map_cons, List.findSome?_cons, List.findSome?_cons, ih, Entity.withCallbacks,
        List.getLast?_map]
      cases e.searchables.getLast? with
      | none => rfl
      | some x => rfl

theorem onCommit_withCallbacks : (c.withCallbacks true).OnCommit := by
  intro e he y hy
  obtain ⟨d, _, rfl⟩ := List.mem_map.mp he
  obtain ⟨x, _, rfl⟩ := List.mem_map.mp hy
  exact x.index.writesOnCommit_withCallbacks true

/-- The classes above one that have a configuration of their own. -/
def configured (c : Catalog) (name : String) : List Entity :=
  (c.lineage name).filter fun e => !e.searchables.isEmpty

/-- While flushing, every class with a configuration of its own has a listener. -/
theorem listenerCount_withCallbacks :
    (c.withCallbacks false).listenerCount name = (c.configured name).length := by
  have hlistens (e : Entity) :
      hasListener (e.withCallbacks false) = !e.searchables.isEmpty := by
    unfold hasListener Entity.withCallbacks
    cases e.searchables with
    | nil => rfl
    | cons x rest => simp [Searchable.withCallbacks]
  rw [listenerCount, lineage_withCallbacks, List.filter_map, List.length_map, configured]
  exact congrArg List.length (List.filter_congr fun e _ => hlistens e)

/-- A class above which one is configured uses a configuration. -/
theorem isSome_searchable? (h : c.configured name ≠ []) : (c.searchable? name).isSome = true := by
  obtain ⟨e, he⟩ := List.exists_mem_of_ne_nil _ h
  obtain ⟨he, hsome⟩ := List.mem_filter.mp he
  rw [searchable?, List.findSome?_isSome_iff]
  refine ⟨e, he, ?_⟩
  rw [List.getLast?_isSome]
  simpa using hsome

end Catalog

namespace Surroundings

/-- The surroundings with all search configurations in one of the modes. -/
def withCallbacks (c : Surroundings) (onCommit : Bool) : Surroundings :=
  { c with catalog := c.catalog.withCallbacks onCommit }

section WithCallbacks

variable (c : Surroundings) (onCommit : Bool)

@[simp]
theorem attrs_withCallbacks : (c.withCallbacks onCommit).attrs = c.attrs := by
  funext entity
  rw [attrs, withCallbacks, Catalog.table?_withCallbacks]
  rfl

@[simp]
theorem tableName_withCallbacks : (c.withCallbacks onCommit).tableName = c.tableName := by
  funext entity
  rw [tableName, withCallbacks, Catalog.table?_withCallbacks]
  rfl

@[simp]
theorem ownKey_withCallbacks : (c.withCallbacks onCommit).ownKey = c.ownKey := by
  funext o
  rw [ownKey, withCallbacks, Catalog.table?_withCallbacks]
  rfl

theorem planFor_withCallbacks : (c.withCallbacks onCommit).planFor = c.planFor := by
  have htakes : (c.withCallbacks onCommit).takesRowOf = c.takesRowOf := by
    funext o d
    simp only [takesRowOf, tableName_withCallbacks, ownKey_withCallbacks]
  funext s base
  unfold planFor
  rw [htakes]
  simp only [withCallbacks, Catalog.baseName_withCallbacks]

theorem load_withCallbacks : (c.withCallbacks onCommit).load = c.load := by
  funext id needed
  simp only [load, refresh, isStale, attrs_withCallbacks, tableName_withCallbacks]

theorem changeRow_withCallbacks : (c.withCallbacks onCommit).changeRow = c.changeRow := by
  funext o t key attrs
  simp only [changeRow, ownKey_withCallbacks]

theorem insertRow_withCallbacks : (c.withCallbacks onCommit).insertRow = c.insertRow := by
  funext id
  simp only [insertRow, ownKey_withCallbacks]
  simp only [withCallbacks, Catalog.table?_withCallbacks]

theorem updateRow_withCallbacks : (c.withCallbacks onCommit).updateRow = c.updateRow := by
  funext id
  simp only [updateRow, load_withCallbacks, changeRow_withCallbacks]
  simp only [withCallbacks, Catalog.table?_withCallbacks]

theorem overwriteRow_withCallbacks :
    (c.withCallbacks onCommit).overwriteRow = c.overwriteRow := by
  funext id
  simp only [overwriteRow, ownKey_withCallbacks, changeRow_withCallbacks]
  simp only [withCallbacks, Catalog.table?_withCallbacks]

theorem removeRow_withCallbacks : (c.withCallbacks onCommit).removeRow = c.removeRow := by
  funext id
  simp only [removeRow, load_withCallbacks, tableName_withCallbacks]
  simp only [withCallbacks, Catalog.table?_withCallbacks]

theorem storedAt?_withCallbacks (s : Session) :
    s.storedAt? (c.withCallbacks onCommit) = s.storedAt? c := by
  funext table key
  rw [Session.storedAt?, tableName_withCallbacks]
  rfl

theorem conclude_withCallbacks : (c.withCallbacks onCommit).conclude = c.conclude := by
  have hkeep : (c.withCallbacks onCommit).keep = c.keep := by
    funext s id
    simp only [keep, ownKey_withCallbacks, tableName_withCallbacks, storedAt?_withCallbacks]
  funext s
  rw [conclude, hkeep]
  rfl

theorem add_withCallbacks : (c.withCallbacks onCommit).add = c.add := by
  funext object entity values
  simp only [add, withCallbacks, Catalog.lineage_withCallbacks]
  cases c.catalog.lineage entity with
  | nil => rfl
  | cons e rest => rfl

theorem set_withCallbacks : (c.withCallbacks onCommit).set = c.set := by
  funext object attr value
  simp only [set, load_withCallbacks]
  simp only [withCallbacks, Catalog.table?_withCallbacks]

theorem delete_withCallbacks : (c.withCallbacks onCommit).delete = c.delete := by
  have hplace : (c.withCallbacks onCommit).isPlaceTaken = c.isPlaceTaken := by
    funext s o
    rw [isPlaceTaken, storedAt?_withCallbacks, tableName_withCallbacks]
    rfl
  funext object
  simp only [delete, attach, hplace]

end WithCallbacks

/-- The objects of a class have rows under the key `id`, and one class of its ancestry is
configured for searching. -/
structure Models (c : Surroundings) (name : String) (t : Table) : Prop where
  declared : c.catalog.WellDeclared
  enabled : c.enabled = true
  table : c.catalog.table? name = some t
  keyed : t.keyColumn?.map (·.attr) = some "id"
  single : (c.catalog.configured name).length = 1

end Surroundings

end Typeahead
