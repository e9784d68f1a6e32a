import SpanScript.Token.Alphabet

/-!
# Trivia

What may stand between statements: blanks, separators and comments.  A comment
runs from `#` up to the next newline.  `pastTrivia` gives the offset where the
trivia end.
-/

namespace SpanScript

namespace Trivia

open Alphabet

/-- How many of the next `left` offsets are trivia.  The flag says whether the head is
inside a comment.  Where the bytes end before the offsets do, a comment goes on to the
last of them, and everything else stops. -/
def span : Bool → Nat → Bytes → Nat
  | _, 0, _ => 0
  | false, _ + 1, [] => 0
  | true, left + 1, [] => left + 1
  | false, left + 1, b :: rest =>
    if isBlank b || isSeparator b then span false left rest + 1
    else if b == hash then span true left rest + 1
    else 0
  | true, left + 1, b :: rest => span (b != Bytes.newline) left rest + 1

end Trivia

/-- The first offset at or after `index` that is not trivia, or `stop` if all offsets
before it are.  Where the text ends in front of `stop` a comment runs on to `stop`, and
nothing else goes past the end.  An index past `stop` is left where it is. -/
def pastTrivia (text : Bytes) (index stop : Nat) : Nat :=
  index + Trivia.span false (stop - index) (text.drop index)

/-- Skipping never moves back. -/
theorem Trivia.le_pastTrivia (text : Bytes) (index stop : Nat) :
    index ≤ pastTrivia text index stop :=
  Nat.le_add_right _ _

end SpanScript
