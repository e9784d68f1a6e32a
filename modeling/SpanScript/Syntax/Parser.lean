import SpanScript.Syntax.Statement
import SpanScript.Token.Lexer

/-!
# The parser

A `Parser` has a lexer and all tokens it has got from it; so many of them are taken, and
the rest are looked at already.  A token is lexed when it is first looked at, and never
again; behind the end nothing is.  A fault leaves the tokens as they are and the lexer
where the problem showed, so a parser that is asked again goes on from there.
-/

namespace SpanScript

/-- A lexer, the tokens that it has given, and how many of them are taken. -/
structure Parser where
  lexer : Lexer
  tokens : List Token
  index : Nat
  deriving DecidableEq, Repr

namespace Parser

/-- Why a parser gives no statement.  The text of a number that begins where the buffer
ends, with the bound behind it, has no digits, and is no integer. -/
inductive Fault
  | plain (f : ParseFault)
  | noDigits (text : String)
  deriving DecidableEq, Repr

/-- A parser that has read nothing. -/
def start (l : Lexer) : Parser := ⟨l, [], 0⟩

/-- The end of the last token taken; before any, the place of the lexer. -/
def endOffset (p : Parser) : Nat :=
  match p.index with
  | 0 => p.lexer.index
  | i + 1 => (p.tokens[i]?).elim p.lexer.index Token.stop

/-- One more token from the lexer, or the end if it has been reached. -/
def more : ReaderOf Fault Parser Token := do
  let p ← get
  match p.tokens.getLast?.filter (·.kind = .eof) with
  | some t => pure t
  | none =>
    match p.lexer.next with
    | (.ok t, lexer) =>
      set { p with lexer, tokens := p.tokens ++ [t] }
      pure t
    | (.error f, lexer) =>
      set { p with lexer }
      throw (.plain (.located (.lexical f.problem) f.location))

/-- More tokens from the lexer, so many and one, or up to the end; gives the last. -/
def fetch : Nat → ReaderOf Fault Parser Token
  | 0 => more
  | n + 1 => do
    let t ← more
    if t.kind = .eof then pure t else fetch n

/-- The token at a distance from the next one; behind the end comes the end. -/
def lookahead (distance : Nat) : ReaderOf Fault Parser Token := do
  let p ← get
  match p.tokens[p.index + distance]? with
  | some t => pure t
  | none => fetch (p.index + distance - p.tokens.length)

def integer (text : String) : Except Fault Literal :=
  if (Numeral.sign text.toList).2.isEmpty then .error (.noDigits text)
  else (Reader.integer text).mapError .plain

/-- The places of a parser are distances from its next token.  A token takes an offset in
front of the bound, so there are no more tokens than offsets up to there. -/
instance : TokenSource Fault Nat Parser where
  here _ := 0
  look distance := do
    let t ← lookahead distance
    pure (t, distance + 1)
  moveTo _ p := { p with index := p.index + 1 }
  bound p := p.lexer.index + p.lexer.left + 1
  fault := .plain
  integer := integer

/-- The next statement or why there is none, and the parser afterwards. -/
def next (types : List TypeName) (nesting : Nat) (p : Parser) : Except Fault Stmt × Parser :=
  (Reader.oneStatement types nesting).run.run p

end Parser

end SpanScript
