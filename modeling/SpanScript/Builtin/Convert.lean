import SpanScript.Fault
import SpanScript.Text.Blank
import SpanScript.Text.Numeral
import SpanScript.Binary64

/-!
# Conversions to numbers

`INT` and `FLT` read numbers from texts, white space at the ends left out, and
convert between the two numeric kinds.  Their answers are always finite, so
what is infinite, not a number or too large cannot be converted.
-/

namespace SpanScript.Builtin

def toInt? : Value → Option Int
  | .int n => some n
  | .flt x => Binary64.truncate? x
  | .str s => Numeral.integer? (Blank.strip s.toList)
  | .tns _ => none

def toFlt? : Value → Option Float
  | .int n => Binary64.ofInt? n
  | .flt x => some x
  | .str s => (Numeral.decimal? (Blank.strip s.toList)).bind fun d =>
      Binary64.ofDecimal? d.negative d.mantissa d.exponent
  | .tns _ => none

/-- The number of a numeric kind that a value converts to. -/
def convert? (op : Builtin) (v : Value) : Option Value :=
  match op with
  | .int => (toInt? v).map .int
  | _ => (toFlt? v).map .flt

end SpanScript.Builtin
