import SpanScript.Text.Digit

/-!
# Written numbers

Numbers as they stand in texts: the digits of any script, underscores between
digits, an optional sign, and for decimals a point and an exponent.  White
space is not part of a number.  `integer?` and `decimal?` read a whole text or
refuse it.
-/

namespace SpanScript.Numeral

/-- The most digits an integer may have to be read or written in decimal. -/
def digitLimit : Nat := 4300

/-- The digits of a run, where single underscores may stand between digits.
The flag says whether a digit has to come next. -/
def digits? : Bool → List Char → Option (List Nat)
  | due, [] => if due then none else some []
  | due, c :: rest =>
    if c == '_' then if due then none else digits? true rest
    else do
      let d ← Digit.value? c
      let ds ← digits? false rest
      pure (d :: ds)

/-- The number that decimal digits write. -/
def ofDigits (ds : List Nat) : Nat := ds.foldl (fun n d => n * 10 + d) 0

/-- The sign at the head of a text, and what is left. -/
def sign : List Char → Bool × List Char
  | c :: rest =>
    if c == '-' then (true, rest)
    else if c == '+' then (false, rest)
    else (false, c :: rest)
  | [] => (false, [])

/-- The integer that a text writes, if it has no more digits than may be
read. -/
def integer? (cs : List Char) : Option Int := do
  let (negative, cs) := sign cs
  let ds ← digits? true cs
  if ds.length > digitLimit then none
  else some (if negative then -(ofDigits ds : Int) else ofDigits ds)

/-- A decimal number `± mantissa · 10 ^ exponent`. -/
structure Decimal where
  negative : Bool
  mantissa : Nat
  exponent : Int
  deriving DecidableEq, Repr

/-- The digits and underscores at the head of a text, and what is left. -/
def run (cs : List Char) : List Char × List Char :=
  cs.span fun c => c == '_' || (Digit.value? c).isSome

/-- The digits of a run that may be missing. -/
def optionalDigits? (cs : List Char) : Option (List Nat) :=
  if cs.isEmpty then some [] else digits? true cs

/-- The exponent that ends a decimal number: nothing, or a letter and an
integer. -/
def exponent? : List Char → Option Int
  | [] => some 0
  | c :: rest =>
    if c == 'e' || c == 'E' then do
      let (negative, cs) := sign rest
      let ds ← digits? true cs
      some (if negative then -(ofDigits ds : Int) else ofDigits ds)
    else none

/-- The decimal number that a text writes. -/
def decimal? (cs : List Char) : Option Decimal := do
  let (negative, cs) := sign cs
  let (whole, cs) := run cs
  let (fraction, cs) := match cs with
    | c :: rest => if c == '.' then run rest else ([], c :: rest)
    | [] => ([], [])
  if whole.isEmpty && fraction.isEmpty then none
  let whole ← optionalDigits? whole
  let fraction ← optionalDigits? fraction
  let exponent ← exponent? cs
  some ⟨negative, ofDigits (whole ++ fraction), exponent - fraction.length⟩

end SpanScript.Numeral
