import Typeahead.Text.Blank
import Typeahead.Text.DecimalDigit
import Typeahead.Number.Binary64

/-!
# Numerals

Reading numbers from text.  `Numeral.readInt` takes a whole number the way a page
number is typed: blanks around it, one sign, decimal digits of any script, single
underscores between digits.  `Numeral.readStrictInt` is the reader of checked
fields, which knows ASCII digits only but also a fraction of zeros.  Both stop at
`Numeral.digitLimit` digits.  `Numeral.readDecimal?` takes a decimal fraction.
-/

namespace Typeahead

namespace Numeral

/-- Whole numbers of more decimal digits are neither read from text nor written. -/
def digitLimit : Nat := 4300

/-- Whether a whole number has more digits than can be written. -/
def exceedsLimit (n : Int) : Bool := decide (Nat.pow 10 digitLimit ≤ n.natAbs)

/-- Why a text is not read as a whole number. -/
inductive Refusal where
  | malformed
  | tooLong (digits : Nat)
  deriving DecidableEq, Repr

/-- A sign at the front of a text, and what follows it. -/
def splitSign : List Char → Bool × List Char
  | '-' :: rest => (true, rest)
  | '+' :: rest => (false, rest)
  | cs => (false, cs)

/-- Applies a sign. -/
def signed (negative : Bool) (n : Nat) : Int := if negative then -(n : Int) else n

/-- The values of digits that single underscores may separate: no digits, a leading
or trailing underscore, two in a row and any other character are refused. -/
def separatedDigits? (digit? : Char → Option Nat) : List Char → Option (List Nat)
  | [] => none
  | [c] => (digit? c).map fun d => [d]
  | c :: '_' :: rest => do
      let d ← digit? c
      let ds ← separatedDigits? digit? rest
      return d :: ds
  | c :: rest => do
      let d ← digit? c
      let ds ← separatedDigits? digit? rest
      return d :: ds

/-- A whole number typed by hand. -/
def readInt (s : String) : Except Refusal Int :=
  let body := splitSign (Text.trimWith Text.isSpace s.toList)
  match separatedDigits? Text.digitValue? body.2 with
  | none => .error .malformed
  | some ds =>
      if digitLimit < ds.length then .error (.tooLong ds.length)
      else .ok (signed body.1 (Text.ofDigits ds))

/-- The value of an ASCII digit. -/
def asciiDigit? (c : Char) : Option Nat :=
  if '0' ≤ c ∧ c ≤ '9' then some (c.toNat - '0'.toNat) else none

/-- Cuts a fraction that consists of zeros. -/
def dropZeroFraction (cs : List Char) : List Char :=
  let whole := cs.takeWhile (· != '.')
  match cs.dropWhile (· != '.') with
  | _ :: fraction => if fraction.all (· == '0') then whole else cs
  | [] => cs

/-- A whole number in a checked field. -/
def readStrictInt (s : String) : Except Refusal Int :=
  if digitLimit < s.utf8ByteSize then .error (.tooLong s.utf8ByteSize)
  else
    let body := splitSign (Text.trimWith Text.isSpace s.toList)
    match separatedDigits? asciiDigit? (dropZeroFraction body.2) with
    | none => .error .malformed
    | some ds => .ok (signed body.1 (Text.ofDigits ds))

/-- The digits at the front of a text, and what follows them. -/
def splitDigits (cs : List Char) : List Nat × List Char :=
  ((cs.takeWhile fun c => (asciiDigit? c).isSome).filterMap asciiDigit?,
    cs.dropWhile fun c => (asciiDigit? c).isSome)

/-- The exponent at the end of a decimal fraction; zero when there is none. -/
def exponent? : List Char → Option Int
  | [] => some 0
  | c :: rest =>
      if c = 'e' ∨ c = 'E' then
        let body := splitSign rest
        let ds := splitDigits body.2
        if ds.1.isEmpty || !ds.2.isEmpty then none
        else some (signed body.1 (Text.ofDigits ds.1))
      else none

/-- A decimal fraction with an optional exponent, or the name of an infinity or of
what is not a number. -/
def readDecimal? (s : String) : Option Binary64 :=
  let body := splitSign s.toList
  let name := String.ofList (body.2.map Char.toLower)
  if name = "nan" then some .nan
  else if name = "inf" ∨ name = "infinity" then some (.infinite body.1)
  else
    let whole := splitDigits body.2
    let fraction := match whole.2 with
      | '.' :: rest => splitDigits rest
      | rest => ([], rest)
    if whole.1.isEmpty && fraction.1.isEmpty then none
    else
      (exponent? fraction.2).map fun e =>
        Binary64.ofDecimal body.1 (Text.ofDigits (whole.1 ++ fraction.1))
          (e - fraction.1.length)

end Numeral

end Typeahead
