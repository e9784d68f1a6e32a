import SpanScript.Builtin.Apply

/-!
# Evaluation in levels

Expressions and statements are run by rules that hand their parts on to a
`Machine`: something that evaluates expressions and executes statements and
knows how many levels it may nest.  A rule is not recursive; a machine of one
more level is the rules over the machine below it, and the machine of no level
refuses everything as too deep.  So a call, which runs the body of a function
however large it is, is no different from any other part.

A part may lie several levels below what it is a part of.  How many are between
the two is the `Weight` of the part, and `Machine.under` passes them over.
-/

namespace SpanScript

/-- What the rules hand the parts of expressions and statements on to.  The
first argument of `evalUnder` and `execUnder` is how many levels to pass over. -/
structure Machine where
  levels : Nat
  evalUnder : Nat → Chain → Expr → Run Value
  execUnder : Nat → Chain → Stmt → Run Completion

namespace Machine

namespace Weight

/-- The levels between a call and its arguments. -/
def argument : Nat := 1

/-- The levels between a call and the body or the defaults of its function. -/
def body : Nat := 3

/-- The levels between a call and the readings of a built-in function. -/
def builtin : Nat := 4

/-- The levels between a tensor literal and its items. -/
def item : Nat := 1

/-- The levels between an index or an assignment to a cell and the indices. -/
def index : Nat := 2

/-- The levels between a statement and its expressions that are no tests. -/
def operand : Nat := 1

/-- The levels between a statement and its tests. -/
def test : Nat := 2

/-- The levels between a choice and the statements of its blocks. -/
def branch : Nat := 2

/-- The levels between a loop and the statements of its block. -/
def turn : Nat := 3

/-- The levels that each tensor takes that is read within another. -/
def tensor : Nat := 3

end Weight

/-- The machine that refuses everything as too deep. -/
def bottom : Machine where
  levels := 0
  evalUnder _ _ _ := throw .tooDeep
  execUnder _ _ _ := throw .tooDeep

/-- The machine for parts with a number of levels between. -/
def under (m : Machine) (extra : Nat) : Machine where
  levels := m.levels - extra
  evalUnder n := m.evalUnder (extra + n)
  execUnder n := m.execUnder (extra + n)

def eval (m : Machine) : Chain → Expr → Run Value := m.evalUnder 0

def exec (m : Machine) : Chain → Stmt → Run Completion := m.execUnder 0

/-- How deep tensors may lie within each other to be read. -/
def readable (m : Machine) : Nat := m.levels / Weight.tensor

/-- Runs statements in order up to one that does not end normally. -/
def block (m : Machine) (chain : Chain) : List Stmt → Run Completion
  | [] => pure .normal
  | s :: rest => do
    match ← m.exec chain s with
    | .normal => m.block chain rest
    | c => pure c

def test (m : Machine) (chain : Chain) (e : Expr) : Run Bool := do
  let v ← m.eval chain e
  Run.truth m.readable v

/-- The integer that an expression has to be, for a rule with a name. -/
def integer (loc : Location) (rule : String) : Value → Run Int
  | .int n => pure n
  | _ => Run.fail (.notInteger rule) loc

/-- The values of a list of expressions that have to be integers. -/
def integers (m : Machine) (chain : Chain) (loc : Location) (rule : String)
    (es : List Expr) : Run (List Int) :=
  es.mapM fun e => do
    let v ← m.eval chain e
    integer loc rule v

end Machine

end SpanScript
