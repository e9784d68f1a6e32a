import SpanScript.Eval.Tensor
import SpanScript.Eval.Call

/-!
# The rules of evaluation

One rule for each form of expression and of statement, and the machines that
the rules make.  How a statement ends is its `Completion`; a fault ends it
without one.
-/

namespace SpanScript

namespace Machine

def literal : Literal → Value
  | .int n => .int n
  | .flt x => .flt x
  | .str s => .str s

def evalRule (m : Machine) (chain : Chain) (e : Expr) : Run Value :=
  match e with
  | .literal _ v => pure (literal v)
  | .name loc x => do
    let s ← get
    match s.get? chain x with
    | some v => pure v
    | none => Run.fail (.undefined x) loc
  | .tensor _ _ => do
    let (shape, values) ← m.cells chain e
    Run.newTensor (.ofCells shape values.toArray)
  | .index loc _ _ => m.readIndex chain loc e
  | .call loc callee args => m.call chain loc callee args

/-- Assigns to a name that is not the name of a function. -/
def assign (m : Machine) (chain : Chain) (loc : Location) (x : String) (value : Expr)
    (declared : Option TypeName) : Run Unit := do
  if ((← get).function? x).isSome then Run.fail (.nameOfFunction x) loc
  else
    let v ← (m.under Weight.operand).eval chain value
    Run.assign loc chain x v declared

/-- Runs the block of the first branch whose test holds, or the other one. -/
def firstHolding (m : Machine) (chain : Chain) (otherwise : Option Block) :
    List Branch → Run Completion
  | [] =>
    match otherwise with
    | some b => (m.under Weight.branch).block chain b.statements
    | none => pure .normal
  | b :: rest => do
    if ← (m.under Weight.test).test chain b.test then
      (m.under Weight.branch).block chain b.block.statements
    else m.firstHolding chain otherwise rest

def readCounter (chain : Chain) (loc : Location) (counter : String) : Run Int := do
  let s ← get
  match s.get? chain counter with
  | some v => integer loc "FOR" v
  | none => Run.fail (.undefined counter) loc

/-- Runs a block for the counts from one to a limit.  The limit is evaluated
once; the counter is a variable that the block may change. -/
def count (m : Machine) (turns : Nat) (chain : Chain) (loc : Location) (counter : String)
    (limit : Expr) (body : Block) : Run Completion := do
  let v ← (m.under Weight.operand).eval chain limit
  let n ← integer loc "FOR" v
  Run.assign loc chain counter (.int 1) (some Kind.int.name)
  Run.countLoop n ((m.under Weight.turn).block chain body.statements)
    (readCounter chain loc counter) (fun k => Run.assign loc chain counter (.int k) none) turns 1

/-- Defines a function, unless its name is that of a built-in one. -/
def define (chain : Chain) (loc : Location) (name : String) (params : List Param)
    (returns : TypeName) (body : Block) : Run Unit := do
  if (Builtin.ofName? name).isSome then Run.fail (.nameOfBuiltin name) loc
  else modify fun s => s.define name ⟨params, returns, body, chain⟩

/-- The value to return from the running call; without an expression it is the
zero of the function that now has the call's name. -/
def returned (m : Machine) (chain : Chain) (loc : Location) (value : Option Expr) :
    Run Value := do
  let s ← get
  match s.calls with
  | [] => Run.fail .returnOutside loc
  | name :: _ =>
    match value with
    | some e => (m.under Weight.operand).eval chain e
    | none =>
      match s.function? name with
      | some f => zeroOf loc name f
      | none => throw (.absent (.function name))

def breakCount (m : Machine) (chain : Chain) (loc : Location) (count : Expr) : Run Int := do
  let v ← (m.under Weight.operand).eval chain count
  let n ← integer loc "BREAK" v
  if n ≤ 0 then Run.fail .breakCount loc else pure n

def execRule (m : Machine) (turns : Nat) (chain : Chain) : Stmt → Run Completion
  | .assign loc x value declared => do
    m.assign chain loc x value declared
    pure .normal
  | .assignCell loc target value => do
    (m.under Weight.operand).writeIndex chain loc target value
    pure .normal
  | .evaluate e => do
    let _ ← (m.under Weight.operand).eval chain e
    pure .normal
  | .ifElse _ branches otherwise => m.firstHolding chain otherwise branches
  | .whileLoop _ test body =>
    Run.whileLoop ((m.under Weight.test).test chain test)
      ((m.under Weight.turn).block chain body.statements) turns
  | .forLoop loc counter limit body => m.count turns chain loc counter limit body
  | .define loc name params returns body => do
    define chain loc name params returns body
    pure .normal
  | .returnValue loc value => do
    let v ← m.returned chain loc value
    pure (.returning v)
  | .breakLoops loc count => do
    let n ← m.breakCount chain loc count
    pure (.breaking n)
  | .continueLoop _ => pure .continuing

end Machine

/-- The machine of a number of levels, whose loops take at most `turns`
turns.  Each level that is passed over brings it one level down. -/
def machine (turns : Nat) : Nat → Machine
  | 0 => .bottom
  | levels + 1 =>
    { levels
      evalUnder := fun extra chain e =>
        match extra with
        | 0 => (machine turns levels).evalRule chain e
        | extra + 1 => (machine turns levels).evalUnder extra chain e
      execUnder := fun extra chain s =>
        match extra with
        | 0 => (machine turns levels).execRule turns chain s
        | extra + 1 => (machine turns levels).execUnder extra chain s }

/-- A machine evaluates by the rule over the machine one level below it. -/
theorem eval_machine (turns levels : Nat) :
    (machine turns (levels + 1)).eval = (machine turns levels).evalRule := rfl

/-- A machine executes by the rule over the machine one level below it. -/
theorem exec_machine (turns levels : Nat) :
    (machine turns (levels + 1)).exec = (machine turns levels).execRule turns := rfl

/-- Passing one more level over is passing over the others one level below. -/
theorem evalUnder_machine (turns levels extra : Nat) :
    (machine turns (levels + 1)).evalUnder (extra + 1) =
      (machine turns levels).evalUnder extra := rfl

/-- Passing one more level over is passing over the others one level below. -/
theorem execUnder_machine (turns levels extra : Nat) :
    (machine turns (levels + 1)).execUnder (extra + 1) =
      (machine turns levels).execUnder extra := rfl

end SpanScript
