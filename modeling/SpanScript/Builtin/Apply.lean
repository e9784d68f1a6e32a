import SpanScript.Value.Form
import SpanScript.Builtin.Arithmetic
import SpanScript.Builtin.Convert
import SpanScript.Text.Case
import SpanScript.Text.Separator

/-!
# Calling built-in functions

`apply` runs a built-in function on evaluated arguments, and `applyToName` one
that takes a name.  Both check the number of arguments first, and all faults are
placed at the call.
-/

namespace SpanScript.Builtin

def string (op : Builtin) : Value → Except Fault String
  | .str s => .ok s
  | _ => .error (.expects op .str)

def integer (op : Builtin) : Value → Except Fault Int
  | .int n => .ok n
  | _ => .error (.expects op .int)

def tensorOf (op : Builtin) : Value → Except Fault TensorRef
  | .tns ref => .ok ref
  | _ => .error (.expects op .tns)

/-- The truth of each value; all of them are looked at. -/
def truthOfEach (levels : Nat) (values : List Value) : Run (List Bool) :=
  values.mapM (Run.truth levels)

/-- The dimensions that the cells of a tensor give. -/
def dimensions (op : Builtin) : List Value → Except Fault (List Int)
  | [] => .ok []
  | v :: rest => do
    let n ← integer op v
    let ns ← dimensions op rest
    pure (n :: ns)

/-- The shape that the cells of a tensor give: positive integers, at least
one. -/
def shapeOf (op : Builtin) (cells : List Value) : Except Fault (List Nat) := do
  let dims ← dimensions op cells
  if dims.isEmpty then .error .noDimensions
  else if dims.any (· ≤ 0) then .error .nonPositiveDimension
  else .ok (dims.map Int.toNat)

def rowOfTexts (texts : List (List Char)) : Tensor :=
  .row (texts.map fun t => .str (String.ofList t))

/-- The numbers that an aggregate ranges over: the cells of a tensor that is
the only argument, or else the arguments. -/
def operands (s : Store) : List Value → List Value
  | [.tns ref] => (s.tensor ref).cells.toList
  | values => values

/-- Joins the texts of the cells of a tensor with a separator, or joins
texts. -/
def joinValues (levels : Nat) (loc : Location) : List Value → Run Value
  | .tns ref :: rest => do
    if 1 < rest.length then Run.fail .joinArguments loc
    else
      let sep ← match rest with
        | v :: _ => Run.orFail loc (string .join v)
        | [] => pure ""
      let s ← get
      let texts ← (s.tensor ref).cells.toList.mapM (Run.text levels)
      pure (.str (String.ofList (Separator.join sep.toList (texts.map String.toList))))
  | values => do
    let texts ← Run.orFail loc (values.mapM (string .join))
    pure (.str (String.join texts))

/-- Cuts a text at a separator, or into words. -/
def splitText (loc : Location) (text : Value) (sep : Option Value) : Run Value := do
  let text ← Run.orFail loc (string .split text)
  match sep with
  | none => Run.newTensor (rowOfTexts (Blank.words text.toList))
  | some sep =>
    let sep ← Run.orFail loc (string .split sep)
    if sep.isEmpty then Run.fail .emptySeparator loc
    else Run.newTensor (rowOfTexts (Separator.cut sep.toList text.toList))

/-- The length of a tensor along one of its dimensions, counted from one. -/
def lengthAlong (loc : Location) (tensor : Value) (axis : Option Value) : Run Value := do
  let ref ← Run.orFail loc (tensorOf .tlen tensor)
  let axis ← match axis with
    | some v => Run.orFail loc (integer .tlen v)
    | none => pure 1
  let s ← get
  let shape := (s.tensor ref).shape
  if 1 ≤ axis ∧ axis ≤ shape.length then
    pure (.int (shape[(axis - 1).toNat]?.getD 0))
  else Run.fail .noSuchDimension loc

def printValues (levels : Nat) (values : List Value) (ending : String) : Run Value := do
  let texts ← values.mapM (Run.text levels)
  modify fun s => s.print (String.join texts ++ ending)
  pure (.int 0)

def convertValue (levels : Nat) (loc : Location) (op : Builtin) (v : Value) : Run Value :=
  match v with
  | .tns _ => Run.fail (.notConvertible op) loc
  | v =>
    match convert? op v with
    | some r => pure r
    | none => do
      let text ← Run.text levels v
      Run.fail (.cannotConvert op text) loc

/-- Runs a built-in function on as many arguments as it takes. -/
def run (levels : Nat) (loc : Location) : Builtin → List Value → Run Value
  | .neg, [v] => Run.orFail loc (onNumber .neg (fun n => -n) (fun x => -x) v)
  | .abs, [v] => Run.orFail loc (onNumber .abs (fun n => (n.natAbs : Int)) Float.abs v)
  | .eq, [a, b] => do
    let same ← Run.equal levels a b
    pure (.ofBool same)
  | .and, values => do
    let truths ← truthOfEach levels values
    pure (.ofBool (truths.all id))
  | .or, values | .bool, values => do
    let truths ← truthOfEach levels values
    pure (.ofBool (truths.any id))
  | .not, values => do
    let truths ← truthOfEach levels values
    pure (.ofBool (!truths.any id))
  | .sum, values => do
    let s ← get
    Run.orFail loc (aggregate .sum (operands s values))
  | .max, values => do
    let s ← get
    Run.orFail loc (aggregate .max (operands s values))
  | .min, values => do
    let s ← get
    Run.orFail loc (aggregate .min (operands s values))
  | .int, [v] => convertValue levels loc .int v
  | .flt, [v] => convertValue levels loc .flt v
  | .str, [v] => do
    let t ← Run.text levels v
    pure (.str t)
  | .type, [v] => pure (.str v.kind.name)
  | .slen, [v] => do
    let s ← Run.orFail loc (string .slen v)
    pure (.int s.length)
  | .upper, [v] => do
    let s ← Run.orFail loc (string .upper v)
    pure (.str (Case.upper s))
  | .lower, [v] => do
    let s ← Run.orFail loc (string .lower v)
    pure (.str (Case.lower s))
  | .replace, [v, old, new] => do
    let s ← Run.orFail loc (string .replace v)
    let old ← Run.orFail loc (string .replace old)
    let new ← Run.orFail loc (string .replace new)
    pure (.str (String.ofList (Separator.replace old.toList new.toList s.toList)))
  | .join, values => joinValues levels loc values
  | .split, [v] => splitText loc v none
  | .split, [v, sep] => splitText loc v (some sep)
  | .tns, [dims, fill] => do
    let ref ← Run.orFail loc (tensorOf .tns dims)
    let s ← get
    let shape ← Run.orFail loc (shapeOf .tns (s.tensor ref).cells.toList)
    Run.newTensor (.ofCells shape (Array.replicate (Tensor.volume shape) fill))
  | .shape, [v] => do
    let ref ← Run.orFail loc (tensorOf .shape v)
    let s ← get
    Run.newTensor (.row ((s.tensor ref).shape.map fun (n : Nat) => .int n))
  | .tlen, [v] => lengthAlong loc v none
  | .tlen, [v, axis] => lengthAlong loc v (some axis)
  | .print, values => printValues levels values ""
  | .println, values => printValues levels values "\n"
  | .assert, [v] => do
    if ← Run.truth levels v then pure (.int 1) else Run.fail .assertionFailed loc
  | op, [a, b] => Run.orFail loc (binary op a b)
  | op, _ => throw (.absent (.argument op))

def checkCount (loc : Location) (op : Builtin) (count : Nat) : Run Unit :=
  if count < op.least then Run.fail (.tooFewArguments op) loc
  else if op.greatest.any (· < count) then Run.fail (.tooManyArguments op) loc
  else pure ()

/-- Calls a built-in function on evaluated arguments. -/
def apply (levels : Nat) (loc : Location) (op : Builtin) (args : List Value) : Run Value := do
  checkCount loc op args.length
  run levels loc op args

/-- Calls a built-in function that takes a name. -/
def applyToName (loc : Location) (chain : Chain) (op : Builtin) (args : List Expr) :
    Run Value := do
  checkCount loc op args.length
  match args with
  | .name _ x :: _ => do
    if op = .del then
      Run.delete loc chain x
      pure (.int 0)
    else
      let s ← get
      pure (.ofBool (s.scopeOf? chain x).isSome)
  | _ :: _ => Run.fail (.notName op) loc
  | [] => throw (.absent (.argument op))

end SpanScript.Builtin
