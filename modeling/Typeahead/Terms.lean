import Typeahead.Failure
import Typeahead.Text.Fields

/-!
# Terms of filters

A filter operand becomes the list of terms that a field is compared with.  Nothing
and the empty text give no terms, a list stands as it is, a truth value is itself.
Anything else is read as whole numbers separated by commas: each piece by the number
it starts with, and as zero when it starts with none.  For a field of truth values
one and zero mean yes and no.
-/

namespace Typeahead

namespace Terms

/-- The whole number that a piece starts with, blanks and a sign before it allowed;
zero when there is none. -/
def leadingInt (piece : List Char) : Except Failure Int :=
  let body := Numeral.splitSign (piece.dropWhile Text.isBlank)
  let ds := (body.2.takeWhile Text.isDigit).filterMap Text.digitValue?
  if ds.isEmpty then .ok 0
  else if Numeral.digitLimit < ds.length then .error (.unreadable ds.length)
  else .ok (Numeral.signed body.1 (Text.ofDigits ds))

/-- The whole numbers in a text; empty pieces at its end do not count. -/
def ofText (s : List Char) : Except Failure (List Int) :=
  (Text.dropEmptyTail (Text.fields ',' s)).mapM leadingInt

/-- Whether an operand says yes to a field of truth values. -/
def saysYes (isBoolean : Bool) (v : Value) : Bool :=
  v.same (.text "true") || isBoolean && (v.same (.text "1") || v.same (.int 1))

/-- Whether an operand says no to a field of truth values. -/
def saysNo (isBoolean : Bool) (v : Value) : Bool :=
  v.same (.text "false") || isBoolean && (v.same (.text "0") || v.same (.int 0))

/-- The terms of an operand that is not a list, not a truth value and not blank. -/
def ofScalar (allowZero isBoolean : Bool) (v : Value) : Except Failure (List Value) :=
  if saysYes isBoolean v then .ok [.bool true]
  else if saysNo isBoolean v then .ok [.bool false]
  else do
    let s ← v.plain?
    let ns ← ofText s.toList
    return (if allowZero then ns else ns.filter (· != 0)).map .int

/-- The terms of an operand.  Inclusions drop zeros, so that an unreadable operand
cannot match every row with a zero; exclusions keep them. -/
def ofOperand (allowZero : Bool) (fieldType v : Value) : Except Failure (List Value) :=
  match v with
  | .null => .ok []
  | .list items => .ok items
  | .tuple items => .ok items
  | .bool b => .ok [.bool b]
  | v =>
      if v.same (.text "") then .ok []
      else ofScalar allowZero (fieldType.same (.text "boolean")) v

end Terms

end Typeahead
