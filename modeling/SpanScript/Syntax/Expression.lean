import SpanScript.Syntax.Reader

/-!
# Parsing expressions

An expression is a primary followed by any number of indices in brackets.
Expressions nest through brackets, parentheses and arguments, and each form of
nesting takes a number of levels, its `Weight`.  `expression n extra` parses an
expression within `n` levels, of which `extra` are taken before it begins; it
takes one itself.
-/

namespace SpanScript.Reader

namespace Weight

/-- The levels between an expression and what it has in parentheses. -/
def parenthesis : Nat := 2

/-- The levels between a tensor literal and its items. -/
def item : Nat := 2

/-- The levels between a call and its arguments. -/
def argument : Nat := 3

/-- The levels between an expression and its indices. -/
def index : Nat := 1

end Weight

variable {ε π σ : Type} [TokenSource ε π σ]

/-- The literal that an integer token writes. -/
def integerLiteral (text : String) : ReaderOf ε σ Literal :=
  match TokenSource.integer σ text with
  | .ok value => pure value
  | .error f => throw f

/-- The literal that a token with a fraction writes; one too large is
infinite. -/
def fractionLiteral (text : String) : Literal :=
  let (negative, cs) := Numeral.sign text.toList
  let whole := cs.takeWhile (· != '.')
  let fraction := (cs.dropWhile (· != '.')).drop 1
  let mantissa := Numeral.ofDigits ((whole ++ fraction).map digitOf)
  .flt ((Binary64.ofDecimal? negative mantissa (-fraction.length)).getD
    (Binary64.infinity negative))

def parenthesized (expr : ReaderOf ε σ Expr) : ReaderOf ε σ Expr := do
  let _ ← expect .lparen
  let e ← expr
  let _ ← expect .rparen
  pure e

/-- Whether a name and an equals sign come next. -/
def keywordComes : ReaderOf ε σ Bool := do
  if ← sees .ident then
    let second ← peekSecond
    pure (second.kind == .equals)
  else pure false

def argument (expr : ReaderOf ε σ Expr) : ReaderOf ε σ Argument := do
  if ← keywordComes then
    let name ← expect .ident
    let _ ← expect .equals
    let e ← expr
    pure (.keyword name.text e)
  else
    let e ← expr
    pure (.positional e)

/-- The first positional argument that follows a keyword argument; the flag
says whether there has been a keyword argument. -/
def misplaced? : Bool → List Argument → Option Expr
  | _, [] => none
  | _, .keyword _ _ :: rest => misplaced? true rest
  | seen, .positional e :: rest => if seen then some e else misplaced? seen rest

/-- A primary expression.  The expressions inside it are read by `expr`, which
is told how many levels are between. -/
def primary (expr : Nat → ReaderOf ε σ Expr) : ReaderOf ε σ Expr := do
  let t ← peek
  match t.kind with
  | .number =>
    let _ ← take
    let value ← integerLiteral t.text
    pure (.literal t.location value)
  | .float =>
    let _ ← take
    pure (.literal t.location (fractionLiteral t.text))
  | .string =>
    let _ ← take
    pure (.literal t.location (.str t.text))
  | .lbracket =>
    let _ ← take
    let items ← commaList .rbracket (expr Weight.item)
    pure (.tensor t.location items)
  | .lparen => parenthesized (expr Weight.parenthesis)
  | .ident =>
    let _ ← take
    if ← accept .lparen then
      let args ← commaList .rparen (argument (expr Weight.argument))
      match misplaced? false args with
      | some e => fail .argumentOrder e.location
      | none => pure (.call t.location t.text args)
    else pure (.name t.location t.text)
  | kind => fail (.unexpectedToken kind) t.location

/-- The indices in one pair of brackets, if a bracket comes next. -/
def indexGroup (expr : ReaderOf ε σ Expr) : ReaderOf ε σ (Option (Location × List Expr)) := do
  if ← sees .lbracket then
    let bracket ← expect .lbracket
    let indices ← commaList .rbracket expr
    pure (some (bracket.location, indices))
  else pure none

/-- An expression within a number of levels, some of which are taken. -/
def expression : Nat → Nat → ReaderOf ε σ Expr
  | 0, _ => throw (TokenSource.fault σ .tooDeep)
  | n + 1, 0 => do
    let head ← primary (expression n)
    let groups ← many (indexGroup (expression n Weight.index))
    pure (groups.foldl (fun base (loc, indices) => .index loc base indices) head)
  | n + 1, extra + 1 => expression n extra

end SpanScript.Reader
