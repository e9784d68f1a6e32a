import SpanScript.Binary64
import SpanScript.Syntax
import SpanScript.Syntax.Problem
import SpanScript.Text.Numeral

/-!
# Reading tokens on demand

A statement is read one token at a time.  Where the tokens come from is left to a
`TokenSource`, and what reads them is written once for all sources.  Looking at a
token does not take it, so a token may be looked at more than once.  A reader never
looks farther than the tokens it asks for, which is what keeps the text behind a
statement out of its parse.

The source here is a cursor, from which tokens are lexed again each time they are
looked at; a token depends on nothing but the cursor.  The cursor stays behind the
last token that was taken, also where no token can be read.  A source that keeps what
it has lexed, and goes on from where it stopped, is a `Parser`; up to the first fault
both read the same statements (`Parser.next_eq`), and behind one a cursor is not used.
-/

namespace SpanScript

/-- A computation on a state, which may come to a fault. -/
abbrev ReaderOf (ε σ α : Type) := ExceptT ε (StateM σ) α

/-- What tokens are read from; `π` are the places between them. -/
class TokenSource (ε π : outParam Type) (σ : Type) where
  /-- The place before the next token. -/
  here : σ → π
  /-- The token at a place, and the place behind it. -/
  look : π → ReaderOf ε σ (Token × π)
  /-- Takes the next token; the place is the one behind it. -/
  moveTo : π → σ → σ
  /-- A number above that of the tokens that are left. -/
  bound : σ → Nat
  /-- How a problem with the statement is reported. -/
  fault : ParseFault → ε
  /-- The literal that the text of an integer token writes. -/
  integer : String → Except ε Literal

/-- Where reading stands: the cursor behind the last token taken, whether any has been
taken, how far the text has been looked at, and a bound on the tokens it can hold. -/
structure ReadState where
  cursor : Cursor
  taken : Bool
  reach : Nat
  bound : Nat

/-- A computation that reads tokens from a cursor. -/
abbrev Reader (α : Type) := ReaderOf ParseFault ReadState α

namespace ReadState

/-- Before anything is read.  A token takes at least a byte, and then there is
the end, which bounds the tokens. -/
def start (c : Cursor) : ReadState := ⟨c, false, c.offset, c.rest.length + 1⟩

/-- The end of the last token taken; before any, the place looked at. -/
def endOffset (s : ReadState) : Nat := if s.taken then s.cursor.offset else s.reach

end ReadState

namespace Reader

variable {ε π σ α : Type}

/-- The value of a digit character; the lexer gives numbers ASCII digits only. -/
def digitOf (c : Char) : Nat := c.toNat - 48

def integer (text : String) : Except ParseFault Literal :=
  let (negative, cs) := Numeral.sign text.toList
  if Numeral.digitLimit < cs.length then .error (.literalTooLong cs.length)
  else
    let n : Int := Numeral.ofDigits (cs.map digitOf)
    .ok (.int (if negative then -n else n))

/-- The token at a cursor and the cursor after it, noting how far was looked.  A fault ends
the reading, so it leaves the cursor where it is. -/
def look (c : Cursor) : Reader (Token × Cursor) := do
  match c.next with
  | .ok (t, after) =>
    modify fun s => { s with reach := max s.reach t.stop }
    pure (t, after)
  | .error f =>
    modify fun s => { s with reach := max s.reach f.reached }
    throw (.located (.lexical f.problem) f.location)

instance : TokenSource ParseFault Cursor ReadState where
  here s := s.cursor
  look := look
  moveTo c s := { s with cursor := c, taken := true }
  bound s := s.bound
  fault f := f
  integer := integer

variable [TokenSource ε π σ]

def fail (problem : SyntaxProblem) (location : Location) : ReaderOf ε σ α :=
  throw (TokenSource.fault σ (.located problem location))

def peek : ReaderOf ε σ Token := do
  let s ← get
  let (t, _) ← TokenSource.look (TokenSource.here s)
  pure t

/-- The token after the next one; after the end comes the end. -/
def peekSecond : ReaderOf ε σ Token := do
  let s ← get
  let (t, after) ← TokenSource.look (TokenSource.here s)
  if t.kind = .eof then pure t
  else
    let (t, _) ← TokenSource.look after
    pure t

/-- Whether the next token is of a kind. -/
def sees (kind : TokenKind) : ReaderOf ε σ Bool := do
  let t ← peek
  pure (t.kind == kind)

def take : ReaderOf ε σ Token := do
  let s ← get
  let (t, after) ← TokenSource.look (TokenSource.here s)
  modify (TokenSource.moveTo after)
  pure t

/-- Takes the next token if it is of a kind. -/
def accept (kind : TokenKind) : ReaderOf ε σ Bool := do
  if ← sees kind then
    let _ ← take
    pure true
  else pure false

/-- Takes the next token, which must be of a kind. -/
def expect (kind : TokenKind) : ReaderOf ε σ Token := do
  let t ← peek
  if t.kind = kind then take
  else fail (.tokenExpected kind t.kind) t.location

/-- Repeats a reader, which takes a token each time, until it answers `none`. -/
def repeatWithin (step : ReaderOf ε σ (Option α)) : Nat → ReaderOf ε σ (List α)
  | 0 => pure []
  | fuel + 1 => do
    match ← step with
    | none => pure []
    | some a =>
      let rest ← repeatWithin step fuel
      pure (a :: rest)

/-- Repeats a reader, which takes a token each time, until it answers `none`. -/
def many (step : ReaderOf ε σ (Option α)) : ReaderOf ε σ (List α) := do
  let s ← get
  repeatWithin step (TokenSource.bound s)

/-- Reads one more item if a token of a kind comes before it. -/
def after (kind : TokenKind) (item : ReaderOf ε σ α) : ReaderOf ε σ (Option α) := do
  if ← accept kind then
    let a ← item
    pure (some a)
  else pure none

/-- Items with commas between them, up to and with a closing token. -/
def commaList (closer : TokenKind) (item : ReaderOf ε σ α) : ReaderOf ε σ (List α) := do
  if ← accept closer then pure []
  else
    let first ← item
    let rest ← many (after .comma item)
    let _ ← expect closer
    pure (first :: rest)

def dropNewlines : ReaderOf ε σ Unit := do
  let _ ← many (after .newline (pure ()))

/-- Takes a name that is one of `types`. -/
def typeName (types : List TypeName) : ReaderOf ε σ TypeName := do
  let t ← expect .ident
  if types.contains t.text then pure t.text
  else fail (.unknownType t.text) t.location

end Reader

end SpanScript
