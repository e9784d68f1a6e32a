import SpanScript.Token.Cursor

/-!
# Why a statement cannot be parsed

A fault either has a place and a problem with the text there, or it is one of
the two limits of the parser: how deep a statement may nest, and how many
digits an integer literal may have.
-/

namespace SpanScript

inductive SyntaxProblem
  | lexical (problem : LexProblem)
  | statementExpected
  | tokenExpected (wanted found : TokenKind)
  | unknownType (name : String)
  | blockExpected (found : TokenKind)
  | blockUnclosed
  | bracketExpected
  | unexpectedToken (found : TokenKind)
  | parameterOrder (name : String)
  | argumentOrder
  deriving DecidableEq, Repr

def SyntaxProblem.message : SyntaxProblem → String
  | lexical problem => problem.message
  | statementExpected => "Expected a statement"
  | tokenExpected wanted found =>
    "Expected token " ++ wanted.name ++ " but found " ++ found.name
  | unknownType name => "Unknown type '" ++ name ++ "'"
  | blockExpected found => "Expected '\x7b' to start block but found " ++ found.name
  | blockUnclosed => "Unexpected end of input in block"
  | bracketExpected => "Expected '[' in indexed assignment"
  | unexpectedToken found => "Unexpected token " ++ found.name ++ " in expression"
  | parameterOrder name =>
    "Positional parameter '" ++ name ++ "' cannot follow parameter with default"
  | argumentOrder => "Positional argument cannot follow keyword argument"

/-- Why a statement cannot be parsed. -/
inductive ParseFault
  | located (problem : SyntaxProblem) (location : Location)
  | tooDeep
  | literalTooLong (digits : Nat)
  deriving DecidableEq, Repr

/-- How a problem at a place is reported. -/
def SyntaxProblem.report (problem : SyntaxProblem) (location : Location) (file : String) : String :=
  problem.message ++ " at " ++ location.text file

/-- What is said of an integer literal with too many digits. -/
def literalTooLongMessage (digits : Nat) : String :=
  "Exceeds the limit (4300 digits) for integer string conversion: value has "
    ++ toString digits
    ++ " digits; use sys.set_int_max_str_digits() to increase the limit"

end SpanScript
