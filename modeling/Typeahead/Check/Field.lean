import Typeahead.Failure

/-!
# Checks of single fields

Readers that turn a value into what a field holds, or complain.  A reader accepts
what clearly means the same: a truth value as a number, a whole fraction as a whole
number, the usual words for yes and no.  Text is never made from anything else.
-/

namespace Typeahead

namespace Check

/-- The words for yes, in lower case. -/
def yesWords : List String := ["1", "on", "t", "true", "y", "yes"]

/-- The words for no, in lower case. -/
def noWords : List String := ["0", "off", "f", "false", "n", "no"]

/-- The least number of bits that a machine integer has no room for. -/
def machineLimit : Nat := Nat.pow 2 63

/-- Whether a whole number fits a machine integer. -/
def fitsMachine (n : Int) : Bool :=
  decide (-(machineLimit : Int) ≤ n) && decide (n < machineLimit)

/-- A truth value; words are taken in any case of ASCII letters. -/
def readBool : Value → Except Complaint Bool
  | .bool b => .ok b
  | .int n =>
      if n = 0 then .ok false
      else if n = 1 then .ok true
      else if fitsMachine n then .error .boolParsing else .error .boolType
  | .float x =>
      if x.sameInt 0 then .ok false
      else if x.sameInt 1 then .ok true
      else match x.truncate? with
        | some n =>
            if x.isWhole && fitsMachine n && n != -(machineLimit : Int) then
              .error .boolParsing
            else .error .boolType
        | none => .error .boolType
  | .text s =>
      let word := String.ofList (s.toList.map Char.toLower)
      if yesWords.contains word then .ok true
      else if noWords.contains word then .ok false
      else .error .boolParsing
  | _ => .error .boolType

/-- A whole number. -/
def readInt : Value → Except Complaint Int
  | .bool b => .ok (Value.ofBool b)
  | .int n => .ok n
  | .float x =>
      match x.truncate? with
      | none => .error .finiteNumber
      | some n =>
          if !x.isWhole then .error .intFromFloat
          else if decide (n.natAbs < machineLimit) then .ok n
          else .error .intParsingSize
  | .text s =>
      match Numeral.readStrictInt s with
      | .ok n => .ok n
      | .error .malformed => .error .intParsing
      | .error (.tooLong _) => .error .intParsingSize
  | _ => .error .intType

/-- Text. -/
def readText : Value → Except Complaint String
  | .text s => .ok s
  | _ => .error .textType

/-- The result of a check of one field: what it holds, or its issues. -/
abbrev Outcome (α : Type) := Except (List Issue) α

/-- A reader of a whole field. -/
def field {α : Type} (name : String) (read : Value → Except Complaint α) (v : Value) :
    Outcome α :=
  match read v with
  | .ok a => .ok a
  | .error c => .error [.ofField name c]

/-- Reads all items and gathers their issues by position. -/
def items {α : Type} (read : Value → Outcome α) : Nat → List Value → Outcome (List α)
  | _, [] => .ok []
  | n, v :: vs =>
      match read v, items read (n + 1) vs with
      | .ok a, .ok as => .ok (a :: as)
      | .ok _, .error es => .error es
      | .error es, .ok _ => .error (es.map (Issue.under [.position n]))
      | .error es, .error fs => .error (es.map (Issue.under [.position n]) ++ fs)

/-- A reader of a single item. -/
def item {α : Type} (read : Value → Except Complaint α) (v : Value) : Outcome α :=
  match read v with
  | .ok a => .ok a
  | .error c => .error [⟨[], c⟩]

/-- A field that holds a list or a tuple; `kind` is the complaint about anything
else. -/
def sequence {α : Type} (name : String) (kind : Complaint) (read : Value → Outcome α)
    (v : Value) : Outcome (List α) :=
  match v.items? with
  | none => .error [.ofField name kind]
  | some vs =>
      match items read 0 vs with
      | .ok as => .ok as
      | .error es => .error (es.map (Issue.under [.name name]))

/-- The issues of an outcome. -/
def issues {α : Type} : Outcome α → List Issue
  | .ok _ => []
  | .error es => es

/-- A field that may be null. -/
def optional {α : Type} (read : Value → Outcome α) : Value → Outcome (Option α)
  | .null => .ok none
  | v => match read v with
      | .ok a => .ok (some a)
      | .error es => .error es

/-- The way to a key of a mapping: numbers by their value, anything else as text. -/
def keySteps (key : Value) : List Step :=
  let step : Step := match key.asInt? with
    | some n => .position n
    | none => .name key.quoted
  [step, .name "[key]"]

/-- The issues of the keys of a mapping that are no text. -/
def keyIssues (entries : Entries) : List Issue :=
  entries.filterMap fun e => match e.1 with
    | .text _ => none
    | key => some ⟨keySteps key, .textType⟩

/-- A mapping with text for keys. -/
def readRecord : Value → Outcome Entries
  | .dict entries => if keyIssues entries = [] then .ok entries else .error (keyIssues entries)
  | _ => .error [⟨[], .dictType⟩]

end Check

end Typeahead
