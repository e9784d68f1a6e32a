import SpanScript.Outcome
import SpanScript.Session

/-!
# The boundary between templates and statements

A render knows nothing of statements.  It asks a `Boundary` for an environment,
has one statement after another run in it, and closes it in the end; whatever a
statement writes goes into the output.  `Boundary.session` is the boundary of
the statement language itself.
-/

namespace SpanScript

/-- What a statement of a template comes to: the environment after it, the texts
it wrote, and how it ended. -/
structure Reply (ε : Type) where
  environment : ε
  written : List String
  outcome : Outcome

/-- What a render asks of a statement language with environments in `ε`: to
make one for a file, to run the statement at an offset in it, to close it. -/
structure Boundary (ε : Type) where
  create : String → ε
  execute : ε → PlacedText → Nat → Reply ε
  close : ε → ε

/-- The boundary of the statement language.  The texts that a statement prints
are taken out of the store, so that none is written twice. -/
def Boundary.session : Boundary Session where
  create := Session.start
  execute s text offset :=
    let (outcome, s) := s.perform text offset
    { environment := { s with store := { s.store with printed := "" } }
      written := [s.store.printed]
      outcome }
  close := Session.close

end SpanScript
