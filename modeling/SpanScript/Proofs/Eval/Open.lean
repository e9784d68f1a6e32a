import SpanScript.Eval.Rules

/-!
# Rules with parts left open

A machine may watch what the machines of the language do, or do a part of it in its own way.
Here the rules are stated again with such parts left open: what is done to call a function of
the program, to run its body, to return, and to bind a name.  With the parts of the language
put in they are the rules of the language.

* `callBy`, `callDefinedBy`, `evalBy`: calls, and expressions.
* `endOfCall`: what a call comes to when its body has ended.
* `assignBinding`, `countBinding`, `execWith`: statements.
* `execBinding`, `execBy`: statements, with only the one or the other part left open.
* `bindingMachine`: the machines, with what is done to bind a name left open.
-/

namespace SpanScript

namespace Machine

/-! ## Expressions -/

/-- `Machine.call`, with what is done to call a function of the program left open. -/
def callBy (m : Machine) (defined : Location → String → Function → Arguments → Run Value)
    (chain : Chain) (loc : Location) (name : String) (args : List Argument) : Run Value := do
  match (Builtin.ofName? name).filter Builtin.takesName with
  | some op =>
    if args.any (·.name?.isSome) then Run.fail (.noKeywords name) loc
    else op.applyToName loc chain (args.map Argument.value)
  | none =>
    let given ← (m.under Weight.argument).arguments chain loc args ⟨[], []⟩
    let s ← get
    match s.function? name, Builtin.ofName? name with
    | some f, _ => defined loc name f given
    | none, none => Run.fail (.unknownFunction name) loc
    | none, some op =>
      if given.named.isEmpty then op.apply (m.under Weight.builtin).readable loc given.positional
      else Run.fail (.noKeywords name) loc

/-- `Machine.callDefined`, with what is done to run the body left open. -/
def callDefinedBy (m : Machine) (body : Chain → List Stmt → Run Completion) (loc : Location)
    (name : String) (f : Function) (given : Arguments) : Run Value := do
  let chain ← m.enter loc name f given
  match ← during name (body chain f.body.statements) with
  | .normal => zeroOf loc name f
  | .returning v =>
    if v.kind.name ≠ f.returns then Run.fail (.returnMismatch name f.returns v.kind) loc
    else pure v
  | .breaking n => escapedBreak n loc
  | .continuing => Run.fail .continueOutside loc

theorem callDefinedBy_block (m : Machine) :
    m.callDefinedBy (m.under Weight.body).block = m.callDefined := rfl

/-- What a call comes to when its body has ended. -/
def endOfCall (loc : Location) (name : String) (f : Function) : Completion → Run Value
  | .normal => zeroOf loc name f
  | .returning v =>
    if v.kind.name ≠ f.returns then Run.fail (.returnMismatch name f.returns v.kind) loc
    else pure v
  | .breaking n => escapedBreak n loc
  | .continuing => Run.fail .continueOutside loc

theorem callDefinedBy_eq (m : Machine) (body : Chain → List Stmt → Run Completion)
    (loc : Location) (name : String) (f : Function) (given : Arguments) :
    m.callDefinedBy body loc name f given = m.enter loc name f given >>= fun chain =>
      during name (body chain f.body.statements) >>= endOfCall loc name f := by
  rw [callDefinedBy]
  refine congrArg (m.enter loc name f given >>= ·) (funext fun chain => ?_)
  refine congrArg (during name _ >>= ·) (funext fun c => ?_)
  cases c <;> rfl

/-- The rule of expressions, with what is done to call a function of the program left
open. -/
def evalBy (m : Machine) (defined : Location → String → Function → Arguments → Run Value)
    (chain : Chain) (e : Expr) : Run Value :=
  match e with
  | .call loc callee args => m.callBy defined chain loc callee args
  | e => m.evalRule chain e

theorem evalBy_callDefined (m : Machine) : m.evalBy m.callDefined = m.evalRule := by
  funext chain e
  cases e <;> rfl

/-! ## Statements -/

section

variable (bind : String → Run Unit → Run Unit)

/-- `Machine.assign`, with what is done to bind the name left open. -/
def assignBinding (m : Machine) (chain : Chain) (loc : Location) (x : String) (value : Expr)
    (declared : Option TypeName) : Run Unit := do
  if ((← get).function? x).isSome then Run.fail (.nameOfFunction x) loc
  else
    let v ← (m.under Weight.operand).eval chain value
    bind x (Run.assign loc chain x v declared)

/-- `Machine.count`, with what is done to bind the counter left open. -/
def countBinding (m : Machine) (turns : Nat) (chain : Chain) (loc : Location) (counter : String)
    (limit : Expr) (body : Block) : Run Completion := do
  let v ← (m.under Weight.operand).eval chain limit
  let n ← integer loc "FOR" v
  bind counter (Run.assign loc chain counter (.int 1) (some Kind.int.name))
  Run.countLoop n ((m.under Weight.turn).block chain body.statements)
    (readCounter chain loc counter) (fun k => Run.assign loc chain counter (.int k) none) turns 1

/-- The rule of statements, with what a return gives and what is done to bind a name left
open: that of a variable which is assigned to, of a counter before its first turn, and of a
function. -/
def execWith (m : Machine) (returned : Location → Option Expr → Run Value) (turns : Nat)
    (chain : Chain) (s : Stmt) : Run Completion :=
  match s with
  | .assign loc x value declared => do
    m.assignBinding bind chain loc x value declared
    pure .normal
  | .forLoop loc counter limit body => m.countBinding bind turns chain loc counter limit body
  | .define loc name params returns body => do
    bind name (define chain loc name params returns body)
    pure .normal
  | .returnValue loc value => do
    let v ← returned loc value
    pure (.returning v)
  | s => m.execRule turns chain s

/-- The rule of statements, with what is done to bind a name left open. -/
def execBinding (m : Machine) (turns : Nat) (chain : Chain) : Stmt → Run Completion :=
  m.execWith bind (m.returned chain) turns chain

end

/-- The rule of statements, with what a return gives left open. -/
def execBy (m : Machine) (returned : Location → Option Expr → Run Value) (turns : Nat)
    (chain : Chain) : Stmt → Run Completion :=
  m.execWith (fun _ step => step) returned turns chain

theorem execBinding_id (m : Machine) (turns : Nat) :
    m.execBinding (fun _ step => step) turns = m.execRule turns := by
  funext chain s
  cases s <;> rfl

theorem execBy_returned (m : Machine) (turns : Nat) (chain : Chain) :
    m.execBy (m.returned chain) turns chain = m.execRule turns chain := by
  funext s
  cases s <;> rfl

end Machine

/-! ## Machines -/

/-- The machine of a number of levels, with what is done to bind a name left open. -/
def bindingMachine (bind : String → Run Unit → Run Unit) (turns : Nat) : Nat → Machine
  | 0 => .bottom
  | levels + 1 =>
    { levels
      evalUnder := fun extra chain e =>
        match extra with
        | 0 => (bindingMachine bind turns levels).evalRule chain e
        | extra + 1 => (bindingMachine bind turns levels).evalUnder extra chain e
      execUnder := fun extra chain s =>
        match extra with
        | 0 => (bindingMachine bind turns levels).execBinding bind turns chain s
        | extra + 1 => (bindingMachine bind turns levels).execUnder extra chain s }

theorem bindingMachine_id (turns : Nat) : ∀ levels : Nat,
    bindingMachine (fun _ step => step) turns levels = machine turns levels := by
  intro levels
  induction levels with
  | zero => rfl
  | succ levels ih =>
    rw [bindingMachine, ih, Machine.execBinding_id]
    rfl

end SpanScript
