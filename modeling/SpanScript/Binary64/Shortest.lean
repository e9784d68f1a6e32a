import SpanScript.Binary64

/-!
# Shortest decimals

How a floating point number is written: with the fewest digits that read back
as the same number, and of those the digits nearest to it.

All decimals that read back as `x = m · 2 ^ e` lie between the midpoints to the
two neighbours of `x`; the midpoints count in when `m` is even.  On the grid of
the multiples of `10 ^ k` a decimal reads back only if one of the two grid
points next to `x` does, so `search` tries those two on finer and finer grids
and takes the first that hits.
-/

namespace SpanScript.Binary64

/-- The decimals that read back as a number, in a unit of which the number is
`value` and its midpoints are `low` and `high`; the unit is `unit.1 / unit.2`. -/
structure Interval where
  low : Nat
  value : Nat
  high : Nat
  closed : Bool
  unit : Nat × Nat

/-- The interval of `mantissa · 2 ^ exponent`.  Below a power of two the
neighbour is half as far, unless the exponent is the least one. -/
def Parts.interval (p : Parts) : Interval :=
  let narrow := p.mantissa = leadingBit ∧ leastExponent < p.exponent
  { low := 4 * p.mantissa - (if narrow then 1 else 2)
    value := 4 * p.mantissa
    high := 4 * p.mantissa + 2
    closed := p.mantissa % 2 = 0
    unit := if 2 ≤ p.exponent then (Nat.pow 2 (p.exponent - 2).toNat, 1)
      else (1, Nat.pow 2 (2 - p.exponent).toNat) }

/-- The multiple of `10 ^ k` in the interval that is nearest to its number; the
even multiple if two are equally near. -/
def Interval.gridPoint? (i : Interval) (k : Int) : Option Nat :=
  let grid := if 0 ≤ k then i.unit.2 * Nat.pow 10 k.toNat else i.unit.2
  let scale := if 0 ≤ k then i.unit.1 else i.unit.1 * Nat.pow 10 (-k).toNat
  let within (c : Nat) : Bool :=
    if i.closed then i.low * scale ≤ c * grid && c * grid ≤ i.high * scale
    else i.low * scale < c * grid && c * grid < i.high * scale
  let below := i.value * scale / grid
  let above := below + 1
  let fromBelow := i.value * scale - below * grid
  let fromAbove := above * grid - i.value * scale
  let belowFirst := fromBelow < fromAbove || (fromBelow == fromAbove && below % 2 == 0)
  let (near, far) := if belowFirst then (below, above) else (above, below)
  if near != 0 && within near then some near
  else if far != 0 && within far then some far
  else none

/-- The first hit on the grids of `10 ^ k`, `10 ^ (k - 1)`, …, as a pair
`(c, k)` for the decimal `c · 10 ^ k`. -/
def Interval.search (i : Interval) : Nat → Int → Nat × Int
  | 0, k => (0, k)
  | tries + 1, k =>
    match i.gridPoint? k with
    | some c => (c, k)
    | none => i.search tries (k - 1)

/-- The shortest decimal `c · 10 ^ k` that reads back as a positive number. -/
def Parts.shortest (p : Parts) : Nat × Int :=
  let top : Int := ((Nat.log2 p.mantissa : Int) + p.exponent + 1) * 30103 / 100000 + 1
  p.interval.search 24 top

/-- How numbers are written: with a point when the decimal exponent lies in
`positional`, else with an exponent of at least `exponentDigits` digits. -/
structure NumberFormat where
  leastPositional : Int
  mostPositional : Int
  exponentDigits : Nat

/-- The form in which numbers are printed. -/
def numberFormat : NumberFormat := ⟨-4, 15, 2⟩

/-- Digits with zeros in front up to a width. -/
def padded (width n : Nat) : String :=
  let s := toString n
  String.ofList (List.replicate (width - s.length) '0') ++ s

/-- The text of the decimal whose digits are `digits`, the first of them having
the place value `10 ^ exponent`. -/
def NumberFormat.write (f : NumberFormat) (digits : List Char) (exponent : Int) : String :=
  if f.leastPositional ≤ exponent ∧ exponent ≤ f.mostPositional then
    if exponent < 0 then
      "0." ++ String.ofList (List.replicate (-exponent - 1).toNat '0' ++ digits)
    else
      let whole := digits.take (exponent.toNat + 1)
      let fraction := digits.drop (exponent.toNat + 1)
      String.ofList (whole ++ List.replicate (exponent.toNat + 1 - whole.length) '0' ++ ['.']
        ++ (if fraction.isEmpty then ['0'] else fraction))
  else
    let mark := match digits with
      | [d] => [d]
      | d :: rest => d :: '.' :: rest
      | [] => []
    String.ofList mark ++ (if exponent < 0 then "e-" else "e+")
      ++ padded f.exponentDigits exponent.natAbs

/-- The text of a positive finite number. -/
def Parts.text (p : Parts) : String :=
  let (c, k) := p.shortest
  let written := (toString c).toList
  let digits := (written.reverse.dropWhile (· == '0')).reverse
  numberFormat.write digits (k + written.length - 1)

def text (x : Float) : String :=
  match parts? x with
  | some p =>
    (if p.negative then "-" else "") ++ (if p.mantissa = 0 then "0.0" else p.text)
  | none => if x == x then (if x < 0 then "-inf" else "inf") else "nan"

end SpanScript.Binary64
