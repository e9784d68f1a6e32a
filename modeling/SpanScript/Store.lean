import SpanScript.Syntax
import SpanScript.Fault

/-!
# The store

What a running program changes: the scopes with their bindings, the tensors,
the function table, the names of the calls that are running, and the text
printed so far.

A scope is held by number, and a `Chain` lists the scopes that a piece of
program sees, innermost first.  A function keeps the chain it was defined in,
and each call of it sees a new scope in front of that chain.
-/

namespace SpanScript

abbrev Scope := List (String × Value)

namespace Scope

/-- Binds a name, in the place of its binding if it has one. -/
def put (x : String) (v : Value) : Scope → Scope
  | [] => [(x, v)]
  | (y, w) :: rest => if y == x then (y, v) :: rest else (y, w) :: put x v rest

def binds (x : String) (s : Scope) : Bool := (s.lookup x).isSome

def remove (x : String) (s : Scope) : Scope := s.filter fun (y, _) => y != x

end Scope

/-- The scopes that a piece of program sees, innermost first. -/
abbrev Chain := List Nat

structure Function where
  params : List Param
  returns : TypeName
  body : Block
  closure : Chain

/-- Everything that a running program changes. -/
structure Store where
  scopes : Array Scope
  tensors : Array Tensor
  functions : List (String × Function)
  calls : List String
  executed : Nat
  closed : Bool
  printed : String

namespace Store

/-- The chain of the statements of a template. -/
def globalChain : Chain := [0]

/-- The store before anything has run: one scope, and nothing in it. -/
def initial : Store :=
  { scopes := #[[]], tensors := #[], functions := [], calls := [], executed := 0, closed := false,
    printed := "" }

def scope (s : Store) (id : Nat) : Scope := s.scopes[id]?.getD []

/-- The bindings of the statements of a template. -/
def globals (s : Store) : Scope := s.scope 0

/-- The scope of a chain that binds a name: the innermost one. -/
def scopeOf? (s : Store) (chain : Chain) (x : String) : Option Nat :=
  chain.find? fun id => (s.scope id).binds x

def get? (s : Store) (chain : Chain) (x : String) : Option Value :=
  (s.scopeOf? chain x).bind fun id => (s.scope id).lookup x

def put (s : Store) (id : Nat) (x : String) (v : Value) : Store :=
  { s with scopes := s.scopes.modify id (Scope.put x v) }

def remove (s : Store) (id : Nat) (x : String) : Store :=
  { s with scopes := s.scopes.modify id (Scope.remove x) }

/-- Adds an empty scope; its number is how many there were. -/
def addScope (s : Store) : Store := { s with scopes := s.scopes.push [] }

/-- The scope in which an assignment to a name binds it.  A name that is bound
keeps its type and its scope, and a declaration may only repeat the type; a name
that is not bound needs a declaration, and is bound in the innermost scope. -/
def assignScope (s : Store) (chain : Chain) (x : String) (v : Value)
    (declared : Option TypeName) : Except Fault Nat :=
  match s.scopeOf? chain x, s.get? chain x with
  | some id, some old =>
    if declared.any (· != old.kind.name) then .error (.redeclared x old.kind)
    else if v.kind ≠ old.kind then .error (.assignedMismatch x old.kind v.kind)
    else .ok id
  | _, _ =>
    match declared with
    | none => .error (.undeclared x)
    | some type =>
      if v.kind.name ≠ type then .error (.declarationMismatch v.kind type)
      else .ok (chain.headD 0)

/-- The scope from which a name is deleted: the innermost one that binds it. -/
def deleteScope (s : Store) (chain : Chain) (x : String) : Except Fault Nat :=
  match s.scopeOf? chain x with
  | none => .error (.cannotDelete x)
  | some id => .ok id

def tensor (s : Store) (ref : TensorRef) : Tensor := s.tensors[ref]?.getD (.ofCells [0] #[])

/-- Holds a new tensor; its reference is how many there were. -/
def addTensor (s : Store) (t : Tensor) : Store := { s with tensors := s.tensors.push t }

def setCell (s : Store) (ref : TensorRef) (offset : Nat) (v : Value) : Store :=
  { s with
    tensors := s.tensors.modify ref fun t => { t with cells := t.cells.setIfInBounds offset v } }

def function? (s : Store) (name : String) : Option Function := s.functions.lookup name

/-- Defines a function, in the place of the one with its name. -/
def define (s : Store) (name : String) (f : Function) : Store :=
  { s with functions := (name, f) :: s.functions.filter fun (n, _) => n != name }

def print (s : Store) (text : String) : Store := { s with printed := s.printed ++ text }

/-- The store after it has been closed: nothing is bound or defined in it. -/
def close (s : Store) : Store :=
  { s with scopes := #[[]], tensors := #[], functions := [], calls := [], closed := true }

end Store

end SpanScript
