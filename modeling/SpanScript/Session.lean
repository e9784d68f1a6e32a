import SpanScript.Eval.Rules
import SpanScript.Outcome
import SpanScript.Syntax.Statement
import SpanScript.Template

/-!
# Sessions

A session runs statements one at a time on one store, each read from an offset
of a text.  `Session.perform` parses one statement and runs it; whatever the
statement does wrong is reported as a failure of that statement, and the session
can go on.
-/

namespace SpanScript

/-- The bounds of a session: how many levels a statement may nest, how many
levels running it may nest, and how many turns of a loop are followed. -/
structure Limits where
  nesting : Nat
  levels : Nat
  turns : Nat

/-- The bounds that programs are run with. -/
def Limits.standard : Limits := ⟨984, 988, Nat.pow 10 18⟩

/-- A session: the name that places are given in, the bounds and the store. -/
structure Session where
  file : String
  limits : Limits
  store : Store

namespace Session

/-- A session in which nothing has run. -/
def start (file : String) : Session := ⟨file, .standard, .initial⟩

def close (s : Session) : Session := { s with store := s.store.close }

/-- What leaves a statement that is no fault of it: a report that would have to
print too long an integer, a look-up that found nothing, a value that is
returned where nothing has been called. -/
inductive Stray
  | printTooLong
  | absent (what : Lookup)
  | returned
  deriving DecidableEq, Repr

def Stray.message : Stray → String
  | printTooLong => printTooLongMessage
  | absent (.function name) => "'" ++ name ++ "'"
  | absent (.cell offset) => "index " ++ toString offset ++ " is out of bounds"
  | absent (.argument op) => op.name ++ " lacks an argument"
  | returned => "a value is returned"

/-- Why a statement fails that has been parsed.  A failure escapes if it cannot
be reported as a fault. -/
inductive Failure
  | fault (cause : Fault) (location : Location)
  | escaped (what : Stray)
  | unfinished
  deriving DecidableEq, Repr

/-- What a halt of a statement at `location` comes to. -/
def Failure.ofHalt (location : Location) : Halt → Failure
  | .fault cause loc => .fault cause loc
  | .tooDeep => .fault .tooDeep location
  | .printTooLong => .fault .printTooLong location
  | .absent what => .escaped (.absent what)
  | .unfinished => .unfinished

/-- What the end of a statement at `location` comes to, when nothing is around
it. -/
def ofCompletion (location : Location) : Completion → Except Failure Unit
  | .normal => .ok ()
  | .breaking n =>
    match integerText n with
    | .ok _ => .error (.fault (.breakEscaped n) location)
    | .error _ => .error (.escaped .printTooLong)
  | .continuing => .error (.fault .continueOutside location)
  | .returning _ => .error (.escaped .returned)

/-- Runs a statement on a store that is not closed, and counts it. -/
def runStatement (limits : Limits) (store : Store) (stmt : Stmt) : Except Failure Unit × Store :=
  if store.closed then (.error (.fault .closed stmt.location), store)
  else
    let store := { store with executed := store.executed + 1 }
    match ((machine limits.turns limits.levels).exec Store.globalChain stmt).run.run store with
    | (.ok c, store) => (ofCompletion stmt.location c, store)
    | (.error h, store) => (.error (.ofHalt stmt.location h), store)

/-- Parses the statement at an offset; gives it with the offset it ends at. -/
def parse (limits : Limits) (text : PlacedText) (offset : Nat) : Except ParseFault (Stmt × Nat) :=
  let cursor := Cursor.ofText text.text offset text.text.length (text.locate offset)
  match Reader.next Kind.names limits.nesting (.start cursor) with
  | (.ok stmt, s) => .ok (stmt, s.endOffset)
  | (.error f, _) => .error f

/-- What a fault in the text of a statement comes to. -/
def ofParseFault (file : String) (offset : Nat) : ParseFault → Outcome
  | .located problem loc => .failed (problem.report loc file) offset
  | .tooDeep => .failed ("Statement nests too deeply at offset " ++ toString offset) offset
  | .literalTooLong n => .escaped (literalTooLongMessage n)

def ofFailure (file : String) (offset : Nat) : Failure → Outcome
  | .fault cause loc => .failed (cause.message ++ " at " ++ loc.text file) offset
  | .escaped what => .escaped what.message
  | .unfinished => .unfinished

/-- Parses and runs the statement at an offset. -/
def perform (s : Session) (text : PlacedText) (offset : Nat) : Outcome × Session :=
  match parse s.limits text offset with
  | .error f => (ofParseFault s.file offset f, s)
  | .ok (stmt, stop) =>
    match runStatement s.limits s.store stmt with
    | (.ok (), store) => (.ended stop, { s with store })
    | (.error f, store) => (ofFailure s.file offset f, { s with store })

end Session

end SpanScript
