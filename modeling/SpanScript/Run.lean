import SpanScript.Store

/-!
# Running

A `Run` changes the store and ends with an answer or with a `Halt`.  What was
changed before a halt stays changed: a program that fails has printed what it
had printed.

Programs need not end, and they may nest as deep as they like, so a run is
given two bounds.  Reaching the bound on nesting is a fault of the program;
reaching the bound on the turns of a loop says nothing about the program, only
that the run was not followed to its end.
-/

namespace SpanScript

/-- What a run looks up and takes to be there: the function of a call that is
running, the cell at an index that was found valid, an argument of a built-in
function that has been given as many as it takes. -/
inductive Lookup
  | function (name : String)
  | cell (offset : Nat)
  | argument (op : Builtin)
  deriving DecidableEq, Repr

/-- Why a run stops without an answer. -/
inductive Halt
  | fault (cause : Fault) (location : Location)
  | tooDeep
  | printTooLong
  | absent (what : Lookup)
  | unfinished
  deriving DecidableEq, Repr

/-- A computation on the store. -/
abbrev Run (α : Type) := ExceptT Halt (StateM Store) α

inductive Completion
  | normal
  | breaking (loops : Int)
  | continuing
  | returning (value : Value)

/-- What the end of a turn means for its loop: `none` to go on, or how the loop
itself ends. -/
def Completion.endOfTurn : Completion → Option Completion
  | normal | continuing => none
  | breaking n => some (if 1 < n then breaking (n - 1) else normal)
  | returning v => some (returning v)

namespace Run

def fail {α : Type} (cause : Fault) (location : Location) : Run α := throw (.fault cause location)

/-- The answer of a computation that may be wrong, with its fault at a place. -/
def orFail {α : Type} (location : Location) : Except Fault α → Run α
  | .ok a => pure a
  | .error cause => fail cause location

def newTensor (t : Tensor) : Run Value := do
  let ref := (← get).tensors.size
  modify fun s => s.addTensor t
  pure (.tns ref)

def newScope : Run Nat := do
  let id := (← get).scopes.size
  modify Store.addScope
  pure id

def assign (loc : Location) (chain : Chain) (x : String) (v : Value)
    (declared : Option TypeName) : Run Unit := do
  match (← get).assignScope chain x v declared with
  | .ok id => modify fun s => s.put id x v
  | .error cause => fail cause loc

def delete (loc : Location) (chain : Chain) (x : String) : Run Unit := do
  match (← get).deleteScope chain x with
  | .ok id => modify fun s => s.remove id x
  | .error cause => fail cause loc

/-- Runs a loop: turns while `test` holds, at most `turns` of them. -/
def whileLoop (test : Run Bool) (turn : Run Completion) : Nat → Run Completion
  | 0 => throw .unfinished
  | turns + 1 => do
    if ← test then
      match (← turn).endOfTurn with
      | none => whileLoop test turn turns
      | some c => pure c
    else pure .normal

/-- Runs a loop that counts to `limit`, from `counter` on.  After each turn the
counter is read again, for the turn may have changed it; `write` puts the next
one, unless it is past the limit. -/
def countLoop (limit : Int) (turn : Run Completion) (read : Run Int) (write : Int → Run Unit) :
    Nat → Int → Run Completion
  | 0, _ => throw .unfinished
  | turns + 1, counter => do
    if limit < counter then pure .normal
    else
      match (← turn).endOfTurn with
      | some c => pure c
      | none =>
        let current ← read
        let counter := current + 1
        if counter ≤ limit then write counter
        countLoop limit turn read write turns counter

end Run

end SpanScript
