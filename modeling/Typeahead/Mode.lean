import Typeahead.Failure

/-!
# Autocomplete modes

A mode says how typed text is matched against a field.  Each mode needs one analyzed
sub-field per suffix tag, in a fixed order; the tag decides the analyzer and how the
name of the sub-field starts.
-/

namespace Typeahead

/-- The matching style of a field. -/
inductive Mode where
  | word
  | phrase
  | full
  deriving DecidableEq, Repr

/-- The kind of an analyzed sub-field. -/
inductive Tag where
  | base
  | word
  | full
  deriving DecidableEq, Repr

namespace Tag

/-- The name of a tag. -/
def name : Tag → String
  | .base => "base"
  | .word => "word"
  | .full => "full"

/-- How the name of a sub-field starts. -/
def lead : Tag → String
  | .base => "ac"
  | .word => "ac_word"
  | .full => "ac_full"

/-- The analyzer that a sub-field is indexed with. -/
def analyzer : Tag → String
  | .base => "ac_edge_ngram"
  | .word => "ac_edge_ngram_word"
  | .full => "ac_edge_ngram_full"

end Tag

namespace Mode

/-- All modes. -/
def all : List Mode := [.word, .phrase, .full]

/-- The name of a mode. -/
def name : Mode → String
  | .word => "word"
  | .phrase => "phrase"
  | .full => "full"

/-- The tags of the sub-fields that a mode needs, in order. -/
def tags : Mode → List Tag
  | .word => [.base, .word]
  | .phrase => [.base]
  | .full => [.base, .full]

/-- The weight of a sub-field: in full mode a match inside the text counts more than
one from its very start. -/
def boost (mode : Mode) (tag : Tag) : Nat :=
  if mode = .full ∧ tag = .base then 3 else 1

/-- The mode of a name. -/
def ofName? (s : String) : Option Mode := all.find? fun m => m.name == s

/-- The mode of a value: its exact name and nothing else. -/
def resolve (v : Value) : Except Failure Mode :=
  match v.text?.bind ofName? with
  | some m => .ok m
  | none => if v.isWritable then .error (.unknownMode v) else .error .unwritable

/-- How the names of sub-fields of a tag start in a mode. -/
def leadOf (mode : Mode) (tag : Value) : Except Failure String :=
  if tag.isKey then
    match mode.tags.find? fun t => tag.same (.text t.name) with
    | some t => .ok t.lead
    | none => .error (.missingKey tag)
  else .error .wrongKind

end Mode

end Typeahead
