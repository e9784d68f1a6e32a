import SpanScript.Fault
import SpanScript.Binary64

/-!
# Arithmetic and comparison

The built-in functions on numbers.  Arithmetic never mixes integers and
floating point numbers.  Division of integers goes toward zero, and the
remainder has the sign of the divisor; for floating point numbers the remainder
has the sign of the dividend.  Integers have no bounds.
-/

namespace SpanScript.Builtin

/-- Applies a function on numbers to two values of one numeric kind. -/
def onPair (op : Builtin) (onInt : Int → Int → Except Fault Int)
    (onFlt : Float → Float → Except Fault Float) : Value → Value → Except Fault Value
  | .int a, .int b => (onInt a b).map .int
  | .flt a, .flt b => (onFlt a b).map .flt
  | a, b => .error (if a.kind = b.kind then .notNumeric op else .mixedKinds op a.kind b.kind)

/-- Applies a function on numbers to a value. -/
def onNumber (op : Builtin) (onInt : Int → Int) (onFlt : Float → Float) :
    Value → Except Fault Value
  | .int a => .ok (.int (onInt a))
  | .flt a => .ok (.flt (onFlt a))
  | _ => .error (.notNumeric op)

/-- The quotient of two integers, toward zero. -/
def divideInt (a b : Int) : Except Fault Int :=
  if b = 0 then .error .divisionByZero else .ok (a.tdiv b)

def divideFlt (a b : Float) : Except Fault Float :=
  if b == 0 then .error .divisionByZero else .ok (a / b)

/-- The remainder of two integers, with the sign of the divisor. -/
def remainderInt (a b : Int) : Except Fault Int :=
  if b = 0 then .error .divisionByZero else .ok (a.fmod b)

/-- The remainder of two floating point numbers, with the sign of the
dividend. -/
def remainderFlt (a b : Float) : Except Fault Float :=
  if b == 0 then .error .divisionByZero
  else if !Binary64.isFinite a then .error .remainderOfNonFinite
  else .ok (Binary64.remainder a b)

/-- A power of an integer.  Powers of `0`, `1` and `-1` are told by the
exponent alone, however large it is. -/
def power (a : Int) (n : Nat) : Int :=
  if a.natAbs ≤ 1 then (if n = 0 then 1 else if n % 2 = 1 then a else a * a)
  else
    let m : Int := Nat.pow a.natAbs n
    if a < 0 ∧ n % 2 = 1 then -m else m

/-- A power of an integer with an exponent that is not negative. -/
def powerInt (a b : Int) : Except Fault Int :=
  if b < 0 then .error .negativeExponent else .ok (power a b.toNat)

/-- A power of a floating point number.  A finite power that is too large is a
fault. -/
def powerFlt (a b : Float) : Except Fault Float :=
  if b < 0 && a == 0 then .error .divisionByZero
  else if a < 0 && !Binary64.isIntegral b then .error .fractionalExponent
  else
    let r := Float.pow a b
    if Binary64.isFinite a && Binary64.isFinite b && r.isInf then .error .powerOutOfRange
    else .ok r

/-- Compares two values of one kind that has an order. -/
def compare (op : Builtin) (onInt : Int → Int → Bool) (onFlt : Float → Float → Bool)
    (onStr : String → String → Bool) : Value → Value → Except Fault Value
  | .int a, .int b => .ok (.ofBool (onInt a b))
  | .flt a, .flt b => .ok (.ofBool (onFlt a b))
  | .str a, .str b => .ok (.ofBool (onStr a b))
  | _, _ => .error (.notComparable op)

def ints? : List Value → Option (List Int)
  | [] => some []
  | .int n :: rest => (ints? rest).map (n :: ·)
  | _ => none

def flts? : List Value → Option (List Float)
  | [] => some []
  | .flt x :: rest => (flts? rest).map (x :: ·)
  | _ => none

/-- Folds values of one numeric kind; there must be one at least. -/
def fold (op : Builtin) (onInt : Int → List Int → Int) (onFlt : Float → List Float → Float)
    (values : List Value) : Except Fault Value :=
  match values, ints? values, flts? values with
  | _ :: _, some (n :: ns), _ => .ok (.int (onInt n ns))
  | _ :: _, _, some (x :: xs) => .ok (.flt (onFlt x xs))
  | _, _, _ => .error (.notOneNumericType op)

/-- The sum, the greatest or the least of values of one numeric kind.  Of equal
numbers the first is kept. -/
def aggregate (op : Builtin) (values : List Value) : Except Fault Value :=
  match op with
  | .max => fold op (fun n ns => ns.foldl (fun m k => if m < k then k else m) n)
      (fun x xs => xs.foldl (fun m y => if m < y then y else m) x) values
  | .min => fold op (fun n ns => ns.foldl (fun m k => if k < m then k else m) n)
      (fun x xs => xs.foldl (fun m y => if y < m then y else m) x) values
  | _ => fold op (fun n ns => (n :: ns).foldl (· + ·) 0)
      (fun x xs => (x :: xs).foldl (· + ·) 0) values

/-- The result of an arithmetic function or a comparison of two values. -/
def binary (op : Builtin) (a b : Value) : Except Fault Value :=
  match op with
  | .add => onPair op (fun a b => .ok (a + b)) (fun a b => .ok (a + b)) a b
  | .sub => onPair op (fun a b => .ok (a - b)) (fun a b => .ok (a - b)) a b
  | .mul => onPair op (fun a b => .ok (a * b)) (fun a b => .ok (a * b)) a b
  | .div => onPair op divideInt divideFlt a b
  | .mod => onPair op remainderInt remainderFlt a b
  | .pow => onPair op powerInt powerFlt a b
  | .gt => compare op (fun a b => b < a) (fun a b => b < a) (fun a b => b < a) a b
  | .lt => compare op (fun a b => a < b) (fun a b => a < b) (fun a b => a < b) a b
  | .gte => compare op (fun a b => b ≤ a) (fun a b => b ≤ a) (fun a b => b ≤ a) a b
  | _ => compare op (fun a b => a ≤ b) (fun a b => a ≤ b) (fun a b => a ≤ b) a b

end SpanScript.Builtin
