import SpanScript.Eval.Machine

/-!
# Calls

A call evaluates its arguments in order, then finds what is called: a function
of the program, or else a built-in one.  The arguments of a function are bound
in a new scope in front of the scopes it was defined in; a parameter that no
argument is given for takes its default, which sees the parameters before it.
-/

namespace SpanScript.Machine

/-- Positional values in order, and named values. -/
structure Arguments where
  positional : List Value
  named : List (String × Value)

/-- The values of arguments, in order.  A name may be given only once. -/
def arguments (m : Machine) (chain : Chain) (loc : Location) :
    List Argument → Arguments → Run Arguments
  | [], given => pure given
  | .positional e :: rest, given => do
    let v ← m.eval chain e
    m.arguments chain loc rest { given with positional := given.positional ++ [v] }
  | .keyword x e :: rest, given => do
    let v ← m.eval chain e
    if (given.named.lookup x).isSome then Run.fail (.duplicateKeyword x) loc
    else m.arguments chain loc rest { given with named := given.named ++ [(x, v)] }

def bindParam (loc : Location) (scope : Nat) (p : Param) (v : Value) : Run Unit := do
  if v.kind.name ≠ p.type then Run.fail (.argumentMismatch p.name p.type v.kind) loc
  else modify fun s => s.put scope p.name v

/-- Binds parameters in order: to positional values while there are any, then
to named values, then to defaults.  Gives the named values that are left. -/
def bindParams (m : Machine) (loc : Location) (function : String) (scope : Nat) (chain : Chain) :
    List Param → List Value → List (String × Value) → Run (List (String × Value))
  | [], _, named => pure named
  | p :: rest, v :: vs, named => do
    bindParam loc scope p v
    m.bindParams loc function scope chain rest vs named
  | p :: rest, [], named => do
    match named.lookup p.name with
    | some v =>
      bindParam loc scope p v
      m.bindParams loc function scope chain rest [] (named.filter fun (x, _) => x != p.name)
    | none =>
      match p.default with
      | none => Run.fail (.missingArgument p.name function) loc
      | some e =>
        let v ← (m.under Weight.body).eval chain e
        bindParam loc scope p v
        m.bindParams loc function scope chain rest [] named

/-- The chain that the body of a function sees, with its parameters bound. -/
def enter (m : Machine) (loc : Location) (name : String) (f : Function)
    (given : Arguments) : Run Chain := do
  if f.params.length < given.positional.length then
    Run.fail (.tooManyPositional name f.params.length given.positional.length) loc
  else
    let scope ← Run.newScope
    let chain := scope :: f.closure
    let left ← m.bindParams loc name scope chain f.params given.positional given.named
    if left.isEmpty then pure chain
    else
      let names := (left.map (·.1)).mergeSort fun a b => a ≤ b
      Run.fail (.unexpectedKeywords names) loc

/-- Runs something as a call of a function: its name is among the running
calls meanwhile, however it ends. -/
def during {α : Type} (name : String) (body : Run α) : Run α := do
  modify fun s => { s with calls := name :: s.calls }
  try
    let a ← body
    modify fun s => { s with calls := s.calls.drop 1 }
    pure a
  catch h =>
    modify fun s => { s with calls := s.calls.drop 1 }
    throw h

/-- The zero value that a function gives without a returned expression. -/
def zeroOf (loc : Location) (name : String) (f : Function) : Run Value :=
  match Value.zero? f.returns with
  | some v => pure v
  | none => Run.fail (.mustReturnTensor name) loc

/-- A break that no loop was left for, as the fault it is. -/
def escapedBreak (count : Int) (loc : Location) : Run Value :=
  match integerText count with
  | .ok _ => Run.fail (.breakEscaped count) loc
  | .error h => throw h

def callDefined (m : Machine) (loc : Location) (name : String) (f : Function)
    (given : Arguments) : Run Value := do
  let chain ← m.enter loc name f given
  match ← during name ((m.under Weight.body).block chain f.body.statements) with
  | .normal => zeroOf loc name f
  | .returning v =>
    if v.kind.name ≠ f.returns then Run.fail (.returnMismatch name f.returns v.kind) loc
    else pure v
  | .breaking n => escapedBreak n loc
  | .continuing => Run.fail .continueOutside loc

/-- Calls what a name stands for. -/
def call (m : Machine) (chain : Chain) (loc : Location) (name : String) (args : List Argument) :
    Run Value := do
  match (Builtin.ofName? name).filter Builtin.takesName with
  | some op =>
    if args.any (·.name?.isSome) then Run.fail (.noKeywords name) loc
    else op.applyToName loc chain (args.map Argument.value)
  | none =>
    let given ← (m.under Weight.argument).arguments chain loc args ⟨[], []⟩
    let s ← get
    match s.function? name, Builtin.ofName? name with
    | some f, _ => m.callDefined loc name f given
    | none, none => Run.fail (.unknownFunction name) loc
    | none, some op =>
      if given.named.isEmpty then op.apply (m.under Weight.builtin).readable loc given.positional
      else Run.fail (.noKeywords name) loc

end SpanScript.Machine
