import Typeahead.Number.Binary64

/-!
# Shortest decimal text

Every decimal number in a small interval around a binary number rounds to it.
`Shortest.digits` takes the coarsest decimal grid with a point in that interval,
and of two such points the nearer one, so the text has as few digits as reading
it back allows.  `FloatStyle` says how the digits are laid out.
-/

namespace Typeahead

namespace Shortest

/-- A positive number `significand * 2 ^ exponent` with the interval that rounds to
it, all in units of a quarter of the last binary place. -/
structure Interval where
  value : Nat
  lower : Nat
  upper : Nat
  closed : Bool
  exponent : Int

/-- The interval of a significand and an exponent.  Below a power of two the
neighbours are half as far away as above it; an even significand owns the ends. -/
def interval (m : Nat) (e : Int) : Interval where
  value := 4 * m
  lower := 4 * m - (if m = Nat.pow 2 52 ∧ Binary64.leastExponent < e then 1 else 2)
  upper := 4 * m + 2
  closed := m % 2 == 0
  exponent := e - 2

/-- The number of decimal digits of a positive integer. -/
def digitCount (n : Nat) : Nat := (Nat.toDigits 10 n).length

/-- The position of the decimal point: `num / den` lies below `10 ^ p` and not below
`10 ^ (p - 1)`. -/
def pointPosition (num den : Nat) : Int :=
  let p := (digitCount num : Int) - (digitCount den : Int)
  if den * Nat.pow 10 p.toNat ≤ num * Nat.pow 10 (-p).toNat then p + 1 else p

/-- The point of the grid of step `10 ^ k` that stands for the interval: one of the
two neighbours of the value, if it lies inside. -/
def gridPoint? (i : Interval) (k : Int) : Option Nat :=
  let up := Nat.pow 2 i.exponent.toNat * Nat.pow 10 (-k).toNat
  let unit := Nat.pow 2 (-i.exponent).toNat * Nat.pow 10 k.toNat
  let inside (d : Nat) : Bool :=
    if i.closed then decide (i.lower * up ≤ d * unit) && decide (d * unit ≤ i.upper * up)
    else decide (i.lower * up < d * unit) && decide (d * unit < i.upper * up)
  let below := i.value * up / unit
  match inside below, inside (below + 1) with
  | true, true =>
      if 2 * (i.value * up) < (2 * below + 1) * unit then some below
      else if (2 * below + 1) * unit < 2 * (i.value * up) then some (below + 1)
      else if below % 2 = 0 then some below else some (below + 1)
  | true, false => some below
  | false, true => some (below + 1)
  | false, false => none

/-- Removes the zeros at the end of a number, at most `fuel` of them. -/
def stripZeros (fuel : Nat) (d : Nat) (k : Int) : Nat × Int :=
  match fuel with
  | 0 => (d, k)
  | fuel + 1 => if d % 10 = 0 then stripZeros fuel (d / 10) (k + 1) else (d, k)

/-- The fewest digits `d` and an exponent `k` such that `d * 10 ^ k` rounds to the
positive number `m * 2 ^ e`; seventeen digits always suffice. -/
def digits (m : Nat) (e : Int) : Nat × Int :=
  let i := interval m e
  let p := pointPosition (i.value * Nat.pow 2 i.exponent.toNat) (Nat.pow 2 (-i.exponent).toNat)
  let found := (List.range 17).findSome? fun (n : Nat) =>
    let k := p - ((n : Int) + 1)
    (gridPoint? i k).map fun d => (d, k)
  match found with
  | some dk => stripZeros 17 dk.1 dk.2
  | none => (0, 0)

end Shortest

/-- How the digits of a number are laid out: the positions of the decimal point
that are written without an exponent, and the least number of exponent digits. -/
structure FloatStyle where
  leastPoint : Int
  greatestPoint : Int
  exponentWidth : Nat
  deriving DecidableEq, Repr

namespace FloatStyle

/-- A natural number with zeros in front, up to a width. -/
def padded (width n : Nat) : String :=
  let ds := Nat.toDigits 10 n
  String.ofList (List.replicate (width - ds.length) '0' ++ ds)

/-- Zeros in a row. -/
def zeros (n : Int) : List Char := List.replicate n.toNat '0'

/-- Digits with the decimal point at a position, and at least one digit on either
side of it. -/
def positional (ds : List Char) (point : Int) : List Char :=
  if point ≤ 0 then '0' :: '.' :: (zeros (-point) ++ ds)
  else if (ds.length : Int) ≤ point then
    ds ++ zeros (point - ds.length) ++ ['.', '0']
  else ds.take point.toNat ++ '.' :: ds.drop point.toNat

/-- Digits with one of them before the decimal point, and an exponent of ten. -/
def scientific (style : FloatStyle) (ds : List Char) (point : Int) : List Char :=
  let e := point - 1
  let mantissa := match ds with
    | [] => []
    | [d] => [d]
    | d :: rest => d :: '.' :: rest
  mantissa ++ ['e', if e < 0 then '-' else '+'] ++
    (padded style.exponentWidth e.natAbs).toList

/-- The text of a number without its sign. -/
def magnitude (style : FloatStyle) (m : Nat) (e : Int) : List Char :=
  if m = 0 then ['0', '.', '0']
  else
    let dk := Shortest.digits m e
    let ds := Nat.toDigits 10 dk.1
    let point := (ds.length : Int) + dk.2
    if style.leastPoint ≤ point ∧ point ≤ style.greatestPoint then positional ds point
    else style.scientific ds point

/-- The text of a number. -/
def text (style : FloatStyle) : Binary64 → String
  | .nan => "nan"
  | .infinite negative => if negative then "-inf" else "inf"
  | .finite negative m e =>
      String.ofList ((if negative then ['-'] else []) ++ style.magnitude m e)

end FloatStyle

end Typeahead
