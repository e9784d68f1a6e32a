import SpanScript.Syntax.Expression

/-!
# Parsing statements

A statement is told by its first token, or, if that is a name, by the token
after it.  An assignment to a tensor cell shows only behind its indices:
`cellFollows` scans past balanced brackets for the equals sign.

Statements nest through blocks.  `statement types n extra` parses a statement
within `n` levels, of which `extra` are taken before it begins, with the names
in `types` for types.
-/

namespace SpanScript.Reader

namespace Weight

/-- The levels between a statement and the expressions that it has without a
bracket or a mark around them. -/
def operand : Nat := 1

/-- The levels between a declaration and its expression. -/
def declared : Nat := 2

/-- The levels between a statement and its test or count. -/
def test : Nat := 2

/-- The levels between a definition and the defaults of its parameters. -/
def default : Nat := 3

/-- The levels between a statement and the statements of its blocks. -/
def block : Nat := 2

end Weight

variable {ε π σ : Type} [TokenSource ε π σ]

/-- Whether brackets that balance and then an equals sign come at a place,
`depth` brackets being open.  Each step looks at one token. -/
def bracketsThenEquals : Nat → Nat → π → ReaderOf ε σ Bool
  | 0, _, _ => pure false
  | fuel + 1, 0, c => do
    let (t, after) ← TokenSource.look c
    match t.kind with
    | .lbracket => bracketsThenEquals fuel 1 after
    | .equals => pure true
    | _ => pure false
  | fuel + 1, depth + 1, c => do
    let (t, after) ← TokenSource.look c
    match t.kind with
    | .eof => pure false
    | .lbracket => bracketsThenEquals fuel (depth + 2) after
    | .rbracket => bracketsThenEquals fuel depth after
    | _ => bracketsThenEquals fuel (depth + 1) after

/-- Whether the name that comes next is the target of an assignment to a cell. -/
def cellFollows : ReaderOf ε σ Bool := do
  let s ← get
  let (_, after) ← TokenSource.look (TokenSource.here s)
  bracketsThenEquals (TokenSource.bound s) 0 after

/-- An assignment, after its declared type if it has one. -/
def assignment (expr : ReaderOf ε σ Expr) (declared : Option TypeName) : ReaderOf ε σ Stmt := do
  let name ← expect .ident
  let _ ← expect .equals
  let value ← expr
  pure (.assign name.location name.text value declared)

/-- A declaration: a type, a colon and an assignment. -/
def declaration (types : List TypeName) (expr : ReaderOf ε σ Expr) : ReaderOf ε σ Stmt := do
  let type ← typeName types
  let _ ← expect .colon
  assignment expr (some type)

def cellAssignment (expr : ReaderOf ε σ Expr) : ReaderOf ε σ Stmt := do
  match ← expr with
  | .index loc base indices =>
    let equals ← expect .equals
    let value ← expr
    pure (.assignCell equals.location (.index loc base indices) value)
  | _ =>
    let t ← peek
    fail .bracketExpected t.location

/-- A parameter, with its default after an equals sign. -/
def parameter (types : List TypeName) (expr : ReaderOf ε σ Expr) : ReaderOf ε σ Param := do
  let type ← typeName types
  let _ ← expect .colon
  let name ← expect .ident
  if ← accept .equals then
    let value ← expr
    pure ⟨type, name.text, some value⟩
  else pure ⟨type, name.text, none⟩

/-- The first parameter without default that follows one with a default; the
flag says whether there has been a default. -/
def undefaulted? : Bool → List Param → Option Param
  | _, [] => none
  | seen, p :: rest =>
    if p.default.isSome then undefaulted? true rest
    else if seen then some p
    else undefaulted? seen rest

/-- The next statement of a block, after newlines, or `none` at the brace. -/
def blockItem (stmt : ReaderOf ε σ Stmt) : ReaderOf ε σ (Option Stmt) := do
  dropNewlines
  if ← accept .rbrace then pure none
  else
    let t ← peek
    if t.kind = .eof then fail .blockUnclosed t.location
    else
      let s ← stmt
      pure (some s)

def block (stmt : ReaderOf ε σ Stmt) : ReaderOf ε σ Block := do
  let t ← peek
  if t.kind ≠ .lbrace then fail (.blockExpected t.kind) t.location
  else
    let brace ← expect .lbrace
    let statements ← many (blockItem stmt)
    pure (.mk brace.location statements)

def definition (types : List TypeName) (expr : ReaderOf ε σ Expr) (stmt : ReaderOf ε σ Stmt) :
    ReaderOf ε σ Stmt := do
  let keyword ← expect (.keyword .funcWord)
  let name ← expect .ident
  let _ ← expect .lparen
  let params ← commaList .rparen (parameter types expr)
  match undefaulted? false params with
  | some p => fail (.parameterOrder p.name) name.location
  | none =>
    let _ ← expect .colon
    let returns ← typeName types
    let body ← block stmt
    pure (.define keyword.location name.text params returns body)

/-- A test in parentheses and the block it guards. -/
def guarded (expr : ReaderOf ε σ Expr) (stmt : ReaderOf ε σ Stmt) : ReaderOf ε σ Branch := do
  let test ← parenthesized expr
  let body ← block stmt
  pure (.mk test body)

def choice (expr : ReaderOf ε σ Expr) (stmt : ReaderOf ε σ Stmt) : ReaderOf ε σ Stmt := do
  let keyword ← expect (.keyword .ifWord)
  let first ← guarded expr stmt
  let others ← many (after (.keyword .elseifWord) (guarded expr stmt))
  if ← accept (.keyword .elseWord) then
    let b ← block stmt
    pure (.ifElse keyword.location (first :: others) (some b))
  else pure (.ifElse keyword.location (first :: others) none)

def whileLoop (expr : ReaderOf ε σ Expr) (stmt : ReaderOf ε σ Stmt) : ReaderOf ε σ Stmt := do
  let keyword ← expect (.keyword .whileWord)
  let test ← parenthesized expr
  let body ← block stmt
  pure (.whileLoop keyword.location test body)

def countLoop (expr : ReaderOf ε σ Expr) (stmt : ReaderOf ε σ Stmt) : ReaderOf ε σ Stmt := do
  let keyword ← expect (.keyword .forWord)
  let _ ← expect .lparen
  let counter ← expect .ident
  let _ ← expect .comma
  let limit ← expr
  let _ ← expect .rparen
  let body ← block stmt
  pure (.forLoop keyword.location counter.text limit body)

/-- The value between the parentheses of a return, if there is one. -/
def optionalValue (expr : ReaderOf ε σ Expr) : ReaderOf ε σ (Option Expr) := do
  if ← sees .rparen then pure none
  else
    let e ← expr
    pure (some e)

def returnStatement (expr : ReaderOf ε σ Expr) : ReaderOf ε σ Stmt := do
  let keyword ← expect (.keyword .returnWord)
  let _ ← expect .lparen
  let value ← optionalValue expr
  let _ ← expect .rparen
  pure (.returnValue keyword.location value)

def breakStatement (expr : ReaderOf ε σ Expr) : ReaderOf ε σ Stmt := do
  let keyword ← expect (.keyword .breakWord)
  let count ← parenthesized expr
  pure (.breakLoops keyword.location count)

def continueStatement : ReaderOf ε σ Stmt := do
  let keyword ← expect (.keyword .continueWord)
  let _ ← expect .lparen
  let _ ← expect .rparen
  pure (.continueLoop keyword.location)

/-- An expression that stands as a statement. -/
def bareExpression (expr : ReaderOf ε σ Expr) : ReaderOf ε σ Stmt := do
  let e ← expr
  pure (.evaluate e)

/-- A statement that begins with the name `t`.  Its expressions are read by
`expr`, which is told how many levels are between. -/
def named (types : List TypeName) (expr : Nat → ReaderOf ε σ Expr) (t : Token) :
    ReaderOf ε σ Stmt := do
  let second ← peekSecond
  if second.kind = .colon ∧ types.contains t.text then
    declaration types (expr Weight.declared)
  else if second.kind = .equals then assignment (expr Weight.operand) none
  else if second.kind = .lbracket then
    if ← cellFollows then cellAssignment (expr Weight.operand) else bareExpression (expr 0)
  else bareExpression (expr 0)

/-- A statement within a number of levels, some of which are taken. -/
def statement (types : List TypeName) : Nat → Nat → ReaderOf ε σ Stmt
  | 0, _ => throw (TokenSource.fault σ .tooDeep)
  | n + 1, 0 => do
    let expr := expression n
    let inner := statement types n Weight.block
    let t ← peek
    match t.kind with
    | .keyword .funcWord => definition types (expr Weight.default) inner
    | .keyword .ifWord => choice (expr Weight.test) inner
    | .keyword .whileWord => whileLoop (expr Weight.test) inner
    | .keyword .forWord => countLoop (expr Weight.operand) inner
    | .keyword .returnWord => returnStatement (expr Weight.operand)
    | .keyword .breakWord => breakStatement (expr Weight.test)
    | .keyword .continueWord => continueStatement
    | .ident => named types expr t
    | _ => bareExpression (expr 0)
  | n + 1, extra + 1 => statement types n extra

/-- One statement, after any newlines. -/
def oneStatement (types : List TypeName) (nesting : Nat) : ReaderOf ε σ Stmt := do
  dropNewlines
  let t ← peek
  if t.kind = .eof then fail .statementExpected t.location
  else statement types nesting 0

/-- The next statement or why there is none, and where reading stands then. -/
def next (types : List TypeName) (nesting : Nat) (s : ReadState) :
    Except ParseFault Stmt × ReadState :=
  (oneStatement types nesting).run.run s

end SpanScript.Reader
