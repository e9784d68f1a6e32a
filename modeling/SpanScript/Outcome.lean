/-!
# Outcomes of a statement

What the reader of a template is told about a statement it has asked to be
run: where the statement ended, or why it failed.  Two outcomes are neither:
an integer too long to be read or printed where no fault can be reported, which
escapes as it is, and a run that was not followed to its end.
-/

namespace SpanScript

inductive Outcome
  | ended (offset : Int)
  | failed (message : String) (offset : Int)
  | escaped (message : String)
  | unfinished
  deriving DecidableEq, Repr

end SpanScript
