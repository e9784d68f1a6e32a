import SpanScript.Run
import SpanScript.Text.Numeral
import SpanScript.Binary64.Shortest

/-!
# Text, truth and equality of values

Three readings of a value that go through tensors within tensors.  A tensor may
come to contain itself, so each is bounded by a number of levels, and fails
when that runs out.

The text of a tensor is its cells in brackets, its rows not told apart; a
tensor is true when a cell is; tensors are equal when their shapes and all
their cells are.  Truth and equality look at no more cells than they need.
-/

namespace SpanScript

/-- The first integer with too many digits to be printed. -/
@[irreducible] def printLimit : Nat := Nat.pow 10 Numeral.digitLimit

/-- The decimal text of an integer, if it does not have too many digits. -/
def integerText (n : Int) : Except Halt String :=
  if printLimit ≤ n.natAbs then .error .printTooLong else .ok (toString n)

namespace Store

/-- The text of a value. -/
def text (s : Store) : Nat → Value → Except Halt String
  | _, .int n => integerText n
  | _, .flt x => .ok (Binary64.text x)
  | _, .str t => .ok t
  | 0, .tns _ => .error .tooDeep
  | levels + 1, .tns ref => do
    let cells ← (s.tensor ref).cells.toList.mapM (s.text levels)
    pure ("[" ++ ", ".intercalate cells ++ "]")

/-- Whether some element satisfies a test, looking at no more than needed. -/
def anyOf {α : Type} (test : α → Except Halt Bool) : List α → Except Halt Bool
  | [] => .ok false
  | a :: rest => do
    if ← test a then pure true else anyOf test rest

/-- Whether a value is true: a number that is not zero, a text that is not
empty, a tensor with a true cell. -/
def truth (s : Store) : Nat → Value → Except Halt Bool
  | _, .int n => .ok (n != 0)
  | _, .flt x => .ok (!(x == 0))
  | _, .str t => .ok (t != "")
  | 0, .tns _ => .error .tooDeep
  | levels + 1, .tns ref => anyOf (s.truth levels) (s.tensor ref).cells.toList

/-- Whether the elements of two lists are equal pair by pair, as far as both
go, looking at no more than needed. -/
def allEqual (test : Value → Value → Except Halt Bool) :
    List Value → List Value → Except Halt Bool
  | a :: as, b :: bs => do
    if ← test a b then allEqual test as bs else pure false
  | _, _ => .ok true

/-- Whether two values are equal. -/
def equal (s : Store) : Nat → Value → Value → Except Halt Bool
  | _, .int a, .int b => .ok (a == b)
  | _, .flt a, .flt b => .ok (a == b)
  | _, .str a, .str b => .ok (a == b)
  | 0, .tns _, .tns _ => .error .tooDeep
  | levels + 1, .tns a, .tns b =>
    if (s.tensor a).shape = (s.tensor b).shape then
      allEqual (s.equal levels) (s.tensor a).cells.toList (s.tensor b).cells.toList
    else .ok false
  | _, _, _ => .ok false

end Store

namespace Run

/-- The answer of a reading of the store. -/
def ofStore {α : Type} (reading : Store → Except Halt α) : Run α := do
  let s ← get
  match reading s with
  | .ok a => pure a
  | .error h => throw h

/-- The text of a value. -/
def text (levels : Nat) (v : Value) : Run String := ofStore fun s => s.text levels v

def truth (levels : Nat) (v : Value) : Run Bool := ofStore fun s => s.truth levels v

/-- Whether two values are equal. -/
def equal (levels : Nat) (a b : Value) : Run Bool := ofStore fun s => s.equal levels a b

end Run

end SpanScript
