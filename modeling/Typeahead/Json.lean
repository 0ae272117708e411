import Typeahead.Value.Basic
import Typeahead.Number.Numeral

/-!
# Structured text

Reads a value from JSON text, as settings carry it.  The names `NaN` and `Infinity`
count as numbers, a repeated key keeps its last value, and whole numbers beyond the
digit limit are refused.  The reader is given as much fuel as there are characters, and
every step takes at least one.
-/

namespace Typeahead

namespace Json

/-- Space between the parts of a structure. -/
def isGap (c : Char) : Bool := c == ' ' || c == '\t' || c == '\n' || c == '\r'

/-- Skips space. -/
def skipGap (cs : List Char) : List Char := cs.dropWhile isGap

/-- The value of a hexadecimal digit. -/
def hexDigit? (c : Char) : Option Nat :=
  if '0' ≤ c ∧ c ≤ '9' then some (c.toNat - '0'.toNat)
  else if 'a' ≤ c ∧ c ≤ 'f' then some (c.toNat - 'a'.toNat + 10)
  else if 'A' ≤ c ∧ c ≤ 'F' then some (c.toNat - 'A'.toNat + 10)
  else none

/-- The number in four hexadecimal digits. -/
def hexadecimal? (a b c d : Char) : Option Nat := do
  let a ← hexDigit? a
  let b ← hexDigit? b
  let c ← hexDigit? c
  let d ← hexDigit? d
  return ((a * 16 + b) * 16 + c) * 16 + d

/-- The character that a letter after a backslash stands for. -/
def escape? : Char → Option Char
  | '"' => some '"'
  | '\\' => some '\\'
  | '/' => some '/'
  | 'b' => some '\x08'
  | 'f' => some '\x0c'
  | 'n' => some '\n'
  | 'r' => some '\r'
  | 't' => some '\t'
  | _ => none

/-- The character that two halves of a pair stand for. -/
def paired (high low : Nat) : Char :=
  Char.ofNat (0x10000 + (high - 0xD800) * 0x400 + (low - 0xDC00))

/-- Whether a number is the first half of a pair. -/
def isHigh (n : Nat) : Bool := decide (0xD800 ≤ n) && decide (n < 0xDC00)

/-- Whether a number is the second half of a pair. -/
def isLow (n : Nat) : Bool := decide (0xDC00 ≤ n) && decide (n < 0xE000)

/-- The character of a number; half of a pair on its own has none and is replaced. -/
def single (n : Nat) : Char :=
  if isHigh n || isLow n then Char.ofNat 0xFFFD else Char.ofNat n

/-- Reads text up to the closing quote. -/
def quotedText : Nat → List Char → Option (List Char × List Char)
  | 0, _ => none
  | fuel + 1, cs =>
      match cs with
      | [] => none
      | '"' :: rest => some ([], rest)
      | '\\' :: 'u' :: a :: b :: c :: d :: rest => do
          let high ← hexadecimal? a b c d
          let alone := do
            let (s, rest) ← quotedText fuel rest
            return (single high :: s, rest)
          match rest with
          | '\\' :: 'u' :: e :: f :: g :: h :: rest =>
              match hexadecimal? e f g h with
              | some low =>
                  if isHigh high && isLow low then do
                    let (s, rest) ← quotedText fuel rest
                    return (paired high low :: s, rest)
                  else alone
              | none => alone
          | _ => alone
      | '\\' :: c :: rest => do
          let c ← escape? c
          let (s, rest) ← quotedText fuel rest
          return (c :: s, rest)
      | c :: rest =>
          if c.toNat < 0x20 then none
          else do
            let (s, rest) ← quotedText fuel rest
            return (c :: s, rest)

/-- The digits of a whole number without idle zeros, and what follows them. -/
def wholeDigits? (cs : List Char) : Option (List Nat × List Char) :=
  match cs with
  | '0' :: rest => some ([0], rest)
  | cs =>
      let ds := Numeral.splitDigits cs
      if ds.1.isEmpty then none else some ds

/-- The digits of a fraction, if there is one. -/
def fractionDigits (cs : List Char) : List Nat × List Char :=
  match cs with
  | '.' :: rest =>
      let ds := Numeral.splitDigits rest
      if ds.1.isEmpty then ([], cs) else ds
  | cs => ([], cs)

/-- The power of ten, if there is one. -/
def power? (cs : List Char) : Option (Int × List Char) :=
  match cs with
  | c :: rest =>
      if c = 'e' ∨ c = 'E' then
        let body := Numeral.splitSign rest
        let ds := Numeral.splitDigits body.2
        if ds.1.isEmpty then none
        else some (Numeral.signed body.1 (Text.ofDigits ds.1), ds.2)
      else none
  | [] => none

/-- Reads a number without its sign. -/
def magnitude (negative : Bool) (cs : List Char) : Option (Value × List Char) := do
  let whole ← wholeDigits? cs
  let fraction := fractionDigits whole.2
  match power? fraction.2 with
  | some (e, rest) =>
      let ds := Text.ofDigits (whole.1 ++ fraction.1)
      return (.float (Binary64.ofDecimal negative ds (e - fraction.1.length)), rest)
  | none =>
      if fraction.1.isEmpty then
        if Numeral.digitLimit < whole.1.length then none
        else some (.int (Numeral.signed negative (Text.ofDigits whole.1)), whole.2)
      else
        let ds := Text.ofDigits (whole.1 ++ fraction.1)
        some (.float (Binary64.ofDecimal negative ds (-(fraction.1.length : Int))), fraction.2)

/-- Drops a word from the front of a text. -/
def dropWord? (word : String) (cs : List Char) : Option (List Char) :=
  if word.toList.isPrefixOf cs then some (cs.drop word.length) else none

/-- The words that stand for values. -/
def words : List (String × Value) :=
  [("null", .null), ("true", .bool true), ("false", .bool false), ("NaN", .float .nan),
    ("Infinity", .float (.infinite false)), ("-Infinity", .float (.infinite true))]

/-- Reads a word or a number. -/
def scalar (cs : List Char) : Option (Value × List Char) :=
  match words.findSome? fun w => (dropWord? w.1 cs).map fun rest => (w.2, rest) with
  | some found => some found
  | none =>
      match cs with
      | '-' :: rest => magnitude true rest
      | cs => magnitude false cs

mutual

/-- Reads a value. -/
def value : Nat → List Char → Option (Value × List Char)
  | 0, _ => none
  | fuel + 1, cs =>
      match cs with
      | '"' :: rest =>
          (quotedText (rest.length + 1) rest).map fun s => (.text (String.ofList s.1), s.2)
      | '[' :: rest =>
          match skipGap rest with
          | ']' :: rest => some (.list [], rest)
          | rest => (items fuel rest).map fun vs => (.list vs.1, vs.2)
      | '\x7b' :: rest =>
          match skipGap rest with
          | '\x7d' :: rest => some (.dict [], rest)
          | rest => (members fuel rest).map fun es => (.dict (Entries.ofList es.1), es.2)
      | cs => scalar cs

/-- Reads the items of a list, the first of which is there. -/
def items : Nat → List Char → Option (List Value × List Char)
  | 0, _ => none
  | fuel + 1, cs => do
      let (v, rest) ← value fuel cs
      match skipGap rest with
      | ',' :: rest => do
          let (vs, rest) ← items fuel (skipGap rest)
          return (v :: vs, rest)
      | ']' :: rest => some ([v], rest)
      | _ => none

/-- Reads the members of a mapping, the first of which is there. -/
def members : Nat → List Char → Option (Entries × List Char)
  | 0, _ => none
  | fuel + 1, cs =>
      match cs with
      | '"' :: rest => do
          let (key, rest) ← quotedText (rest.length + 1) rest
          match skipGap rest with
          | ':' :: rest => do
              let (v, rest) ← value fuel (skipGap rest)
              let member := (Value.text (String.ofList key), v)
              match skipGap rest with
              | ',' :: rest => do
                  let (es, rest) ← members fuel (skipGap rest)
                  return (member :: es, rest)
              | '\x7d' :: rest => some ([member], rest)
              | _ => none
          | _ => none
      | _ => none

end

/-- Reads a whole text as one value. -/
def read? (s : String) : Option Value :=
  let cs := skipGap s.toList
  match value (2 * cs.length + 2) cs with
  | some (v, rest) => if (skipGap rest).isEmpty then some v else none
  | none => none

end Json

end Typeahead
