/-!
# Values

A value is an integer, a floating point number, a text or a tensor.  A tensor
is held by reference: two values may share one, and then an assignment to a
cell shows in both.  The cells of a tensor are values again, in row-major order,
and its dimensions are counted from one.
-/

namespace SpanScript

inductive Kind
  | int | flt | str | tns
  deriving DecidableEq, Repr

namespace Kind

/-- How a kind is written in a program. -/
def name : Kind → String
  | int => "INT"
  | flt => "FLT"
  | str => "STR"
  | tns => "TNS"

/-- How a message speaks of a kind. -/
def noun : Kind → String
  | int => "integer"
  | flt => "float"
  | str => "string"
  | tns => "tensor"

def all : List Kind := [int, flt, str, tns]

/-- The names of the kinds, which are the types of the language. -/
def names : List String := all.map name

theorem name_injective {a b : Kind} (h : a.name = b.name) : a = b := by
  cases a <;> cases b <;> first | rfl | (exact absurd h (by decide))

end Kind

/-- Where a tensor is held. -/
abbrev TensorRef := Nat

inductive Value
  | int (n : Int)
  | flt (x : Float)
  | str (s : String)
  | tns (ref : TensorRef)

namespace Value

def kind : Value → Kind
  | int _ => .int
  | flt _ => .flt
  | str _ => .str
  | tns _ => .tns

/-- The integer that stands for a truth value. -/
def ofBool (b : Bool) : Value := int (if b then 1 else 0)

/-- The value of a type that a call without a returned expression gives; a
tensor has none. -/
def zero? (type : String) : Option Value :=
  if type = Kind.int.name then some (int 0)
  else if type = Kind.flt.name then some (flt 0)
  else if type = Kind.str.name then some (str "")
  else none

end Value

/-- A tensor: its dimensions, its cells in row-major order, and how far apart
cells are that differ by one in each dimension. -/
structure Tensor where
  shape : List Nat
  cells : Array Value
  strides : List Nat

/-- How an index into a tensor can be wrong. -/
inductive IndexProblem
  | wrongCount
  | zero
  | outOfRange
  deriving DecidableEq, Repr

namespace Tensor

/-- The number of cells of a shape. -/
def volume (shape : List Nat) : Nat := shape.foldr (· * ·) 1

/-- The strides of a shape.  They are laid down from the last dimension on,
each as the product of the dimensions that have been passed. -/
def stridesOf (shape : List Nat) : List Nat :=
  (shape.foldr (fun dim (strides, step) => (step :: strides, step * dim)) ([], 1)).1

/-- The tensor of a shape with the given cells. -/
def ofCells (shape : List Nat) (cells : Array Value) : Tensor := ⟨shape, cells, stridesOf shape⟩

/-- The place in a dimension that an index stands for, counted from zero.
Indices count from one, or from the end if negative. -/
def position (index : Int) (dim : Nat) : Except IndexProblem Nat :=
  if index = 0 then .error .zero
  else
    let i := if index < 0 then index + dim + 1 else index
    if 1 ≤ i ∧ i ≤ dim then .ok (i - 1).toNat else .error .outOfRange

/-- The number of a cell, as the sum of its positions times the strides. -/
def sumPositions : List Int → List Nat → List Nat → Except IndexProblem Nat
  | index :: indices, dim :: dims, stride :: rest => do
    let p ← position index dim
    let n ← sumPositions indices dims rest
    pure (p * stride + n)
  | _, _, _ => .ok 0

/-- The number of the cell at a list of indices, one for each dimension. -/
def offset (t : Tensor) (indices : List Int) : Except IndexProblem Nat :=
  if indices.length = t.shape.length then sumPositions indices t.shape t.strides
  else .error .wrongCount

def row (cells : List Value) : Tensor := ofCells [cells.length] cells.toArray

end Tensor

end SpanScript
