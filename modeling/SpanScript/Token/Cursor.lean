import SpanScript.Token.Lexeme

/-!
# Cursors

Tokens are read one at a time from a `Cursor`, and only the bytes that a token
needs are looked at: the cursor holds the bytes up to its bound, so nothing past
the bound can be seen.

`gap` is what may be dropped before a token: blanks, then at most one comment,
for a comment is always followed by a newline, which is a token, or by the end.
`Cursor.next` drops the gap, reads the lexeme behind it, and counts offsets and
places.

A cursor knows no offsets behind the end of the text, and it is not moved by a fault.  A
`Lexer` does go on over such offsets, and from where a fault leaves it; as long as the
bound is in the text and no fault has come, both read the same (`Cursor.reports_next`).
-/

namespace SpanScript

open Alphabet

/-- How many bytes may be dropped before a token: blanks, then a comment. -/
def gap (bs : Bytes) : Nat :=
  let blanks := bs.takeWhile isBlank
  match bs.dropWhile isBlank with
  | b :: rest =>
    if b == hash then blanks.length + 1 + (rest.takeWhile (· != Bytes.newline)).length
    else blanks.length
  | [] => blanks.length

/-- A place in a text that is being read: the bytes from there up to the
bound, the offset, and the line and column. -/
structure Cursor where
  rest : Bytes
  offset : Nat
  location : Location
  deriving DecidableEq, Repr

/-- A problem with a token: where the message puts it, and the offset that had
been reached when it showed. -/
structure LexFault where
  problem : LexProblem
  location : Location
  reached : Nat
  deriving DecidableEq, Repr

def LexFault.message (f : LexFault) (file : String) : String :=
  f.problem.message ++ " at " ++ f.location.text file

namespace Cursor

/-- The cursor at offset `start` of a text that is read up to `stop`, which counts as the
end of the text if it lies behind that. -/
def ofText (text : Bytes) (start stop : Nat) (location : Location) : Cursor :=
  ⟨text.window start stop, start, location⟩

/-- The cursor `n` bytes on. -/
def move (c : Cursor) (n : Nat) : Cursor :=
  ⟨c.rest.drop n, c.offset + n, c.location.after (c.rest.take n)⟩

/-- The next token, and the cursor after it. -/
def next (c : Cursor) : Except LexFault (Token × Cursor) :=
  let c := c.move (gap c.rest)
  match Lexeme.scan c.rest with
  | .ok l =>
    let after := c.move l.length
    .ok (⟨l.kind, l.text, c.location, c.offset, after.offset⟩, after)
  | .error e =>
    let reached := c.move e.length
    .error ⟨e.problem, if e.inside then reached.location else c.location, reached.offset⟩

/-- The tokens up to and with the end, and how reading them ended: the offset
reached, or the problem with the token after the last one.  `fuel` bounds how
many tokens are read; a token takes at least a byte. -/
def tokensWithin : Nat → Cursor → List Token × Except LexFault Nat
  | 0, c => ([], .ok c.offset)
  | fuel + 1, c =>
    match c.next with
    | .error f => ([], .error f)
    | .ok (t, after) =>
      if t.kind = .eof then ([t], .ok after.offset)
      else
        let (ts, e) := tokensWithin fuel after
        (t :: ts, e)

/-- All tokens from the cursor on, and how reading them ended. -/
def tokens (c : Cursor) : List Token × Except LexFault Nat :=
  tokensWithin (c.rest.length + 1) c

end Cursor

end SpanScript
