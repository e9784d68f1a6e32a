import SpanScript.Token.Cursor

/-!
# The lexer

A `Lexer` walks over a buffer one offset at a time, up to a bound that may lie behind
the end of the buffer.  What it sees at an offset is a slice of one byte, which is empty
past the end.  An empty slice equals no byte, so it is no blank, no mark and no quote;
but it is found in every set of bytes that it is looked up in, so digits and names go on
over it, and a number begins with it.

Unlike a `Cursor` a lexer does not go back: where no token can be read it stays where the
problem showed, and the next token is read from there.
-/

namespace SpanScript

open Alphabet

/-- Where lexing stands: the bytes of the buffer from there on, the number of offsets up
to the bound, the offset, and the line and column. -/
structure Lexer where
  rest : Bytes
  left : Nat
  index : Nat
  location : Location
  deriving DecidableEq, Repr

namespace Lexer

/-- The lexer at offset `start` of a buffer that is read up to `stop`. -/
def ofText (text : Bytes) (start stop : Nat) (location : Location) : Lexer :=
  ⟨text.drop start, stop - start, start, location⟩

/-- The slice of one byte, which is empty past the end of the buffer. -/
def peek (l : Lexer) : Option UInt8 := l.rest.head?

/-- The lexer one offset on. -/
def advance (l : Lexer) : Lexer :=
  ⟨l.rest.tail, l.left - 1, l.index + 1, l.location.pass l.peek⟩

/-- Goes on over slices with a property, over at most so many. -/
def advanceWithin (p : Option UInt8 → Bool) : Nat → Lexer → Lexer
  | 0, l => l
  | n + 1, l => if p l.peek then advanceWithin p n l.advance else l

/-- Goes on over slices with a property. -/
def advanceWhile (p : Option UInt8 → Bool) (l : Lexer) : Lexer := advanceWithin p l.left l

/-- Goes on over what may be dropped before a token: blanks, then a comment, behind which
there is a newline or the bound. -/
def skipGap (l : Lexer) : Lexer :=
  let l := l.advanceWhile (·.any isBlank)
  if l.left ≠ 0 ∧ l.peek = some hash then l.advanceWhile (· != some Bytes.newline) else l

def skipDigits (l : Lexer) : Lexer := l.advanceWhile (·.all isDigit)

/-- The bytes between two places. -/
def upTo (l l' : Lexer) : Bytes := l.rest.take (l'.index - l.index)

def token (l : Lexer) (kind : TokenKind) (text : String) (l' : Lexer) : Token :=
  ⟨kind, text, l.location, l.index, l'.index⟩

/-- The end of reading a token that ends at a place. -/
def finish (l : Lexer) (kind : TokenKind) (text : String) (l' : Lexer) :
    Except LexFault Token × Lexer :=
  (.ok (l.token kind text l'), l')

/-- A number that begins at `start`, its sign being read. -/
def number (start : Lexer) (sign : Bytes) (l : Lexer) : Except LexFault Token × Lexer :=
  let point := l.skipDigits
  let fraction := point.advance
  if point.left ≠ 0 ∧ point.peek = some dot ∧ fraction.left ≠ 0 ∧ fraction.peek.all isDigit then
    let stop := fraction.skipDigits
    start.finish .float (ascii (sign ++ l.upTo point ++ dot :: fraction.upTo stop)) stop
  else start.finish .number (ascii (sign ++ l.upTo point)) point

/-- A name or a reserved word. -/
def word (l : Lexer) : Except LexFault Token × Lexer :=
  let stop := l.advanceWhile (·.all isNamePart)
  let text := ascii (l.upTo stop)
  let kind := match Keyword.ofSpelling? text with
    | some k => .keyword k
    | none => .ident
  l.finish kind text stop

/-- A string literal that begins at `start`, when `raw` has been read of what stands
between its quotes and so many offsets are left. -/
def quoted (start : Lexer) (quote : UInt8) : Nat → Bytes → Lexer → Except LexFault Token × Lexer
  | 0, _, l => (.error ⟨.unterminated, start.location, l.index⟩, l)
  | n + 1, raw, l =>
    if l.peek = some quote then
      match Utf8.decode? raw with
      | some text => start.finish .string text l.advance
      | none => (.error ⟨.invalidUtf8, start.location, l.advance.index⟩, l.advance)
    else if l.peek = some Bytes.newline then
      (.error ⟨.unterminated, start.location, l.index⟩, l)
    else if l.peek = some backslash then
      let l := l.advance
      match n with
      | 0 => (.error ⟨.unterminated, start.location, l.index⟩, l)
      | n + 1 =>
        match l.peek.bind unescape? with
        | some b => quoted start quote n (raw ++ [b]) l.advance
        | none => (.error ⟨.unknownEscape l.peek, l.location, l.index⟩, l)
    else quoted start quote n (raw ++ l.peek.toList) l.advance

/-- The token where no gap is in front, and the lexer behind it; or why there is none,
and the lexer where that showed. -/
def scan (l : Lexer) : Except LexFault Token × Lexer :=
  if l.left = 0 then l.finish .eof "" l
  else match l.peek with
  | none => l.number [] l
  | some b =>
    if isSeparator b then l.finish .newline "\n" l.advance
    else match symbol? b with
    | some kind => l.finish kind (ascii [b]) l.advance
    | none =>
      if isQuote b then l.quoted b l.advance.left [] l.advance
      else if b == minus then
        if l.advance.left ≠ 0 ∧ l.advance.peek.all isDigit then l.number [minus] l.advance
        else (.error ⟨.loneMinus, l.location, l.index⟩, l)
      else if isDigit b then l.number [] l
      else if isNameStart b then l.word
      else (.error ⟨.unexpected b, l.location, l.index⟩, l)

/-- The next token and the lexer behind it, or why there is none and where that showed. -/
def next (l : Lexer) : Except LexFault Token × Lexer := l.skipGap.scan

end Lexer

end SpanScript
