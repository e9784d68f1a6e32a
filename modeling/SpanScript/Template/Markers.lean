import SpanScript.Bytes

/-!
# Markers

What opens and closes the statements of a template, which is never empty, and
how many bytes of it a message shows.
-/

namespace SpanScript

/-- How a template marks its statements. -/
structure Markers where
  opener : Bytes
  closer : Bytes
  excerptLimit : Nat
  opener_ne_nil : opener ≠ []
  closer_ne_nil : closer ≠ []

inductive MarkersFault
  | emptyMarker
  | negativeLimit
  deriving DecidableEq, Repr

def MarkersFault.message : MarkersFault → String
  | emptyMarker => "markers must be non-empty"
  | negativeLimit => "context_limit must be >= 0"

namespace Markers

/-- The given markers and limit, if they are valid. -/
def of? (opener closer : Bytes) (excerptLimit : Int) : Except MarkersFault Markers :=
  if h : opener ≠ [] ∧ closer ≠ [] then
    if excerptLimit < 0 then .error .negativeLimit
    else .ok ⟨opener, closer, excerptLimit.toNat, h.1, h.2⟩
  else .error .emptyMarker

/-- How many bytes a message shows unless told otherwise. -/
def standardLimit : Nat := 10

/-- Two braces on each side. -/
def standard : Markers :=
  ⟨[123, 123], [125, 125], standardLimit, by decide, by decide⟩

end Markers

end SpanScript
