/-!
# Binary floating point

A 64-bit binary number is kept by its value: not a number, an infinity, or a sign
with a significand below `2 ^ 53` and an exponent of two from -1074 to 971.  All
arithmetic is exact arithmetic on integers, followed by one rounding to the
nearest number, ties to the even significand (`Binary64.ofRatio`).
-/

namespace Typeahead

/-- A 64-bit binary floating point number. -/
inductive Binary64 where
  | nan
  | infinite (negative : Bool)
  | finite (negative : Bool) (significand : Nat) (exponent : Int)
  deriving DecidableEq, Repr, Inhabited

namespace Binary64

/-- The least exponent, reached by the numbers nearest to zero. -/
def leastExponent : Int := -1074

/-- The greatest exponent. -/
def greatestExponent : Int := 971

/-- A quotient rounded to the nearest integer, ties to the even one. -/
def roundQuotient (num den : Nat) : Nat :=
  let q := num / den
  let r := 2 * (num % den)
  if r < den then q
  else if den < r then q + 1
  else if q % 2 = 0 then q else q + 1

/-- The quotient `num / den` in units of `2 ^ e`, as a quotient again. -/
def inUnits (num den : Nat) (e : Int) : Nat × Nat :=
  (num * Nat.pow 2 (-e).toNat, den * Nat.pow 2 e.toNat)

/-- The exponent of the unit in which `num / den` is rounded: the significand has
53 bits unless the least exponent stops it. -/
def unitExponent (num den : Nat) : Int :=
  let guess := max ((Nat.log2 num : Int) - (Nat.log2 den : Int) - 53) leastExponent
  let q := inUnits num den guess
  if Nat.pow 2 53 ≤ q.1 / q.2 then guess + 1 else guess

/-- A number from its significand, which rounding may have carried to 54 bits. -/
def normalize (negative : Bool) (m : Nat) (e : Int) : Binary64 :=
  let carried := decide (m = Nat.pow 2 53)
  let e' := if carried then e + 1 else e
  if greatestExponent < e' then .infinite negative
  else .finite negative (if carried then Nat.pow 2 52 else m) e'

/-- The number nearest to a quotient. -/
def ofRatio (negative : Bool) (num den : Nat) : Binary64 :=
  if num = 0 then .finite negative 0 leastExponent
  else
    let e := unitExponent num den
    let q := inUnits num den e
    normalize negative (roundQuotient q.1 q.2) e

/-- The number nearest to a signed quotient. -/
def ofSignedRatio (num : Int) (den : Nat) : Binary64 :=
  ofRatio (decide (num < 0)) num.natAbs den

/-- The number nearest to an integer; none when that is beyond the greatest one. -/
def ofInt? (n : Int) : Option Binary64 :=
  match ofSignedRatio n 1 with
  | .infinite _ => none
  | x => some x

/-- The number nearest to `digits * 10 ^ exponent`.  The two ends keep the powers
of ten small: beyond them the answer is an infinity or zero. -/
def ofDecimal (negative : Bool) (digits : Nat) (exponent : Int) : Binary64 :=
  let size := ((Nat.toDigits 10 digits).length : Int) + exponent
  if digits = 0 then ofRatio negative 0 1
  else if 400 < size then .infinite negative
  else if size < -400 then ofRatio negative 0 1
  else ofRatio negative (digits * Nat.pow 10 exponent.toNat) (Nat.pow 10 (-exponent).toNat)

/-- The value of a finite number as a quotient. -/
def ratio? : Binary64 → Option (Int × Nat)
  | .finite negative m e =>
      let n := ((m * Nat.pow 2 e.toNat : Nat) : Int)
      some (if negative then -n else n, Nat.pow 2 (-e).toNat)
  | _ => none

/-- Zero of either sign. -/
def isZero : Binary64 → Bool
  | .finite _ m _ => decide (m = 0)
  | _ => false

/-- Equality of values: nothing equals what is not a number, and the two zeros are
equal. -/
def sameValue (x y : Binary64) : Bool :=
  match x, y with
  | .infinite a, .infinite b => a == b
  | x, y =>
      match x.ratio?, y.ratio? with
      | some p, some q => decide (p.1 * (q.2 : Int) = q.1 * (p.2 : Int))
      | _, _ => false

/-- Equality with an integer. -/
def sameInt (x : Binary64) (n : Int) : Bool :=
  match x.ratio? with
  | some p => decide (p.1 = n * (p.2 : Int))
  | none => false

/-- The integer that is left when the fraction is cut off. -/
def truncate? (x : Binary64) : Option Int :=
  x.ratio?.map fun p => Int.tdiv p.1 (p.2 : Int)

/-- A finite number without a fraction. -/
def isWhole (x : Binary64) : Bool :=
  match x.ratio? with
  | some p => decide (p.1 % (p.2 : Int) = 0)
  | none => false

/-- The greatest whole number not above the quotient of two numbers, the second of
which is not zero. -/
def floorDiv (x y : Binary64) : Binary64 :=
  match x, y with
  | .nan, _ => .nan
  | _, .nan => .nan
  | .infinite _, _ => .nan
  | .finite negative m _, .infinite below =>
      if m = 0 || negative == below then ofRatio false 0 1 else ofRatio true 1 1
  | x, y =>
      match x.ratio?, y.ratio? with
      | some p, some q => ofSignedRatio (Int.fdiv (p.1 * (q.2 : Int)) (q.1 * (p.2 : Int))) 1
      | _, _ => .nan

/-- The sum with one. -/
def succ (x : Binary64) : Binary64 :=
  match x.ratio? with
  | some p => ofSignedRatio (p.1 + (p.2 : Int)) p.2
  | none => x

end Binary64

end Typeahead
