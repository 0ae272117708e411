import Typeahead.Failure
import Typeahead.Schema

/-!
# Declared field types

Where the type of a filtered field is looked up: the properties of a mapping, the
columns of a model or a table, or several such sources asked in turn.  A field that
is not declared has no type, which is answered by null.
-/

namespace Typeahead

/-- A source of declared field types. -/
inductive FieldTypes where
  | properties (entries : Entries)
  | model (model : Model)
  | table (table : Table)
  | chain (sources : List FieldTypes)

namespace FieldTypes

/-- Whether a text occurs inside another one. -/
def occursIn (needle : List Char) : List Char → Bool
  | [] => needle.isEmpty
  | c :: cs => needle.isPrefixOf (c :: cs) || occursIn needle cs

/-- The value under a key, if the key is there; nothing under it counts as an empty
mapping. -/
def inner (key : String) (v : Value) : Except Failure Value :=
  match v with
  | .dict entries =>
      match Entries.lookup entries (.text key) with
      | some found => .ok (found.orElse (.dict []))
      | none => .ok v
  | .text s => if occursIn key.toList s.toList then .error .wrongKind else .ok v
  | v =>
      match v.items? with
      | some items => if items.any (·.same (.text key)) then .error .wrongKind else .ok v
      | none => .error .wrongKind

/-- Reads one entry of a list of pairs. -/
def pairOf (index : Nat) (v : Value) : Except Failure (Value × Value) :=
  match v.members? with
  | none => .error .wrongKind
  | some [key, value] => if key.isKey then .ok (key, value) else .error .wrongKind
  | some parts => .error (.unpairedEntry index parts.length)

/-- Reads a list of pairs. -/
def pairsFrom : Nat → List Value → Except Failure Entries
  | _, [] => .ok []
  | n, v :: vs => do
      let entry ← pairOf n v
      let rest ← pairsFrom (n + 1) vs
      return entry :: rest

/-- The entries of a mapping, or of a list of pairs in its place. -/
def entriesOf (v : Value) : Except Failure Entries :=
  match v with
  | .dict entries => .ok entries
  | v =>
      match v.members? with
      | none => .error .wrongKind
      | some items => do
          let pairs ← pairsFrom 0 items
          return Entries.ofList pairs

/-- The field types of an index body, of its mappings, or of bare properties. -/
def ofMapping (mapping : Value) : Except Failure FieldTypes := do
  let mappings ← inner "mappings" (mapping.orElse (.dict []))
  let found ← inner "properties" mappings
  let entries ← entriesOf found
  return .properties entries

/-- The type in the configuration of a field. -/
def typeIn : Value → Value
  | .dict config => (Entries.get config "type").orElse .null
  | _ => .null

/-- The type of a column, null without one. -/
def columnType : Option Column → Value
  | some c => .text c.type.visitName
  | none => .null

mutual

/-- The declared type of a field; null when it is not declared. -/
def resolve (field : Value) : FieldTypes → Except Failure Value
  | .properties entries => do
      let name ← field.plain?
      return typeIn (Entries.get entries name)
  | .model m =>
      match m.table with
      | none => .error .uninspectable
      | some t => do
          let name ← field.plain?
          return columnType (t.attribute? name)
  | .table t => do
      let name ← field.plain?
      return columnType (t.column? name)
  | .chain sources => resolveFirst field sources

/-- The first answer of several sources that is not empty. -/
def resolveFirst (field : Value) : List FieldTypes → Except Failure Value
  | [] => .ok .null
  | s :: rest => do
      let found ← resolve field s
      if found.truthy then return found else resolveFirst field rest

end

end FieldTypes

end Typeahead
