/-!
# Binary floating point

A finite number is `± mantissa · 2 ^ exponent`.  This file takes a `Float` apart
into those three and puts it together again: `ofRatio?` gives the nearest number
to a fraction, with ties to the even mantissa.  Through these two the
conversions to and from integers and decimals and the remainder of a division
are exact integer arithmetic.
-/

namespace SpanScript.Binary64

/-- A finite number `± mantissa · 2 ^ exponent`.  Numbers of full precision have
a mantissa of 53 bits. -/
structure Parts where
  negative : Bool
  mantissa : Nat
  exponent : Int
  deriving DecidableEq, Repr

/-- The mantissas of full precision begin here. -/
def leadingBit : Nat := Nat.pow 2 52

def leastExponent : Int := -1074

def infinityBits : Nat := 2047 * leadingBit

/-- The parts of a number, unless it is infinite or not a number. -/
def parts? (x : Float) : Option Parts :=
  let bits := x.toBits.toNat
  let negative := Nat.pow 2 63 ≤ bits
  let magnitude := bits % Nat.pow 2 63
  let field := magnitude / leadingBit
  let fraction := magnitude % leadingBit
  if field = 2047 then none
  else if field = 0 then some ⟨negative, fraction, leastExponent⟩
  else some ⟨negative, leadingBit + fraction, field + leastExponent - 1⟩

/-- The integer nearest to `num / den`, with ties to the even one. -/
def roundRatio (num den : Nat) : Nat :=
  let q := num / den
  let r := num % den
  if den < 2 * r ∨ (2 * r = den ∧ q % 2 = 1) then q + 1 else q

/-- The fraction `num / den` divided by `2 ^ e`. -/
def scaled (num den : Nat) (e : Int) : Nat × Nat :=
  if 0 ≤ e then (num, den * Nat.pow 2 e.toNat) else (num * Nat.pow 2 (-e).toNat, den)

/-- The bits of the number nearest to `num / den`, which may be those of
infinity or past them. -/
def bitsOfRatio (num den : Nat) : Nat :=
  if num = 0 then 0
  else
    let least : Int := (Nat.log2 num : Int) - Nat.log2 den - 53
    let (n, d) := scaled num den least
    let e := max leastExponent (if n / d < Nat.pow 2 53 then least else least + 1)
    let (n, d) := scaled num den e
    (e - leastExponent).toNat * leadingBit + roundRatio n d

/-- A number from its bits and sign. -/
def ofMagnitude (negative : Bool) (bits : Nat) : Float :=
  Float.ofBits (UInt64.ofNat (if negative then Nat.pow 2 63 + bits else bits))

/-- The number nearest to `± num / den`, unless it is too large. -/
def ofRatio? (negative : Bool) (num den : Nat) : Option Float :=
  let bits := bitsOfRatio num den
  if infinityBits ≤ bits then none else some (ofMagnitude negative bits)

def infinity (negative : Bool) : Float := ofMagnitude negative infinityBits

/-- The number nearest to an integer, unless it is too large. -/
def ofInt? (n : Int) : Option Float := ofRatio? (n < 0) n.natAbs 1

/-- How many decimal digits a positive integer has, give or take a few
hundredths of them. -/
def roughDigits (n : Nat) : Int := (Nat.log2 n : Int) * 30103 / 100000

/-- The number nearest to `± mantissa · 10 ^ exponent`, unless it is too large.
Decimals far out of range are decided by their size alone. -/
def ofDecimal? (negative : Bool) (mantissa : Nat) (exponent : Int) : Option Float :=
  if mantissa = 0 then some (ofMagnitude negative 0)
  else
    let size := roughDigits mantissa + exponent
    if 400 < size then none
    else if size < -500 then some (ofMagnitude negative 0)
    else if 0 ≤ exponent then ofRatio? negative (mantissa * Nat.pow 10 exponent.toNat) 1
    else ofRatio? negative mantissa (Nat.pow 10 (-exponent).toNat)

/-- The integer part of a finite number, toward zero. -/
def truncate? (x : Float) : Option Int :=
  (parts? x).map fun p =>
    let n : Nat := if 0 ≤ p.exponent then p.mantissa * Nat.pow 2 p.exponent.toNat
      else p.mantissa / Nat.pow 2 (-p.exponent).toNat
    if p.negative then -(n : Int) else n

def isIntegral (x : Float) : Bool :=
  match parts? x with
  | none => false
  | some p => 0 ≤ p.exponent || p.mantissa % Nat.pow 2 (-p.exponent).toNat == 0

def isFinite (x : Float) : Bool := (parts? x).isSome

/-- The remainder of `x` divided by `y`, exact and with the sign of `x`.  The
dividend is finite and the divisor is not zero; an infinite divisor leaves the
dividend as it is. -/
def remainder (x y : Float) : Float :=
  match parts? x, parts? y with
  | some p, some q =>
    let e := min p.exponent q.exponent
    let m := p.mantissa * Nat.pow 2 (p.exponent - e).toNat
    let n := q.mantissa * Nat.pow 2 (q.exponent - e).toNat
    let r := m % n
    let (num, den) := scaled r 1 (-e)
    (ofRatio? p.negative num den).getD x
  | some _, none => if y == y then x else y
  | none, _ => x

end SpanScript.Binary64
