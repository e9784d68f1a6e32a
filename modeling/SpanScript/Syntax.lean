import SpanScript.Location

/-!
# Statements and expressions

The trees of the statement language.  Every node but a branch, a parameter and
an argument knows the place of the token that stands for it: its first token,
except that an assignment is placed at the name assigned to, an assignment to a
tensor cell at its equals sign, and indexing at its bracket.

Types are the names that the parser was told are types, so they are texts here.
-/

namespace SpanScript

abbrev TypeName := String

inductive Literal
  | int (n : Int)
  | flt (x : Float)
  | str (s : String)

mutual

inductive Expr
  | literal (loc : Location) (value : Literal)
  | tensor (loc : Location) (items : List Expr)
  | index (loc : Location) (base : Expr) (indices : List Expr)
  | name (loc : Location) (name : String)
  | call (loc : Location) (callee : String) (args : List Argument)

/-- An argument of a call, given by position or by name. -/
inductive Argument
  | positional (value : Expr)
  | keyword (name : String) (value : Expr)

end

/-- A parameter of a function, with the expression to use when no argument is
given for it. -/
structure Param where
  type : TypeName
  name : String
  default : Option Expr

mutual

inductive Stmt
  | assign (loc : Location) (target : String) (value : Expr) (declared : Option TypeName)
  | assignCell (loc : Location) (target : Expr) (value : Expr)
  | evaluate (value : Expr)
  | ifElse (loc : Location) (branches : List Branch) (otherwise : Option Block)
  | whileLoop (loc : Location) (test : Expr) (body : Block)
  | forLoop (loc : Location) (counter : String) (limit : Expr) (body : Block)
  | define (loc : Location) (name : String) (params : List Param) (returns : TypeName)
      (body : Block)
  | returnValue (loc : Location) (value : Option Expr)
  | breakLoops (loc : Location) (count : Expr)
  | continueLoop (loc : Location)

/-- A block in braces, placed at the opening one. -/
inductive Block
  | mk (loc : Location) (statements : List Stmt)

/-- A test with the block to run when it holds. -/
inductive Branch
  | mk (test : Expr) (block : Block)

end

def Expr.location : Expr → Location
  | literal loc _ | tensor loc _ | index loc _ _ | name loc _ | call loc _ _ => loc

def Argument.value : Argument → Expr
  | positional value | keyword _ value => value

def Argument.name? : Argument → Option String
  | positional _ => none
  | keyword name _ => some name

/-- The place of a statement; an expression that stands alone has its own. -/
def Stmt.location : Stmt → Location
  | assign loc _ _ _ | assignCell loc _ _ | ifElse loc _ _ | whileLoop loc _ _
  | forLoop loc _ _ _ | define loc _ _ _ _ | returnValue loc _ | breakLoops loc _
  | continueLoop loc => loc
  | evaluate value => value.location

def Block.location : Block → Location
  | mk loc _ => loc

def Block.statements : Block → List Stmt
  | mk _ statements => statements

def Branch.test : Branch → Expr
  | mk test _ => test

def Branch.block : Branch → Block
  | mk _ block => block

/-- The innermost base of a chain of index expressions, with the indices of
the whole chain in order: `t[1][2]` and `t[1, 2]` have the same. -/
def Expr.indexChain : Expr → Expr × List Expr
  | index _ base indices =>
    let (root, outer) := base.indexChain
    (root, outer ++ indices)
  | e => (e, [])

end SpanScript
