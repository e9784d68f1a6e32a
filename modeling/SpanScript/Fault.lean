import SpanScript.Builtin
import SpanScript.Value

/-!
# Run-time faults

Everything that can go wrong while a statement runs, as a cause with what a
reader needs to know, and one wording for each.
-/

namespace SpanScript

inductive Fault
  -- names
  | undefined (name : String)
  | undeclared (name : String)
  | declarationMismatch (actual : Kind) (declared : String)
  | redeclared (name : String) (current : Kind)
  | assignedMismatch (name : String) (current actual : Kind)
  | nameOfFunction (name : String)
  | nameOfBuiltin (name : String)
  | cannotDelete (name : String)
  -- tensors
  | cellOfExpression
  | cellOfNonTensor
  | indexOfNonTensor
  | cellMismatch
  | index (problem : IndexProblem)
  | notInteger (rule : String)
  | emptyLiteral
  | raggedLiteral
  -- flow
  | returnOutside
  | breakCount
  | breakEscaped (count : Int)
  | continueOutside
  | tooDeep
  | closed
  | printTooLong
  -- calls
  | mustReturnTensor (function : String)
  | returnMismatch (function declared : String) (actual : Kind)
  | unknownFunction (name : String)
  | noKeywords (function : String)
  | duplicateKeyword (name : String)
  | tooManyPositional (function : String) (most given : Nat)
  | missingArgument (param function : String)
  | argumentMismatch (param declared : String) (actual : Kind)
  | unexpectedKeywords (names : List String)
  -- built-in functions
  | tooFewArguments (op : Builtin)
  | tooManyArguments (op : Builtin)
  | mixedKinds (op : Builtin) (first second : Kind)
  | notNumeric (op : Builtin)
  | expects (op : Builtin) (kind : Kind)
  | notComparable (op : Builtin)
  | notOneNumericType (op : Builtin)
  | divisionByZero
  | remainderOfNonFinite
  | negativeExponent
  | fractionalExponent
  | powerOutOfRange
  | notConvertible (op : Builtin)
  | cannotConvert (op : Builtin) (text : String)
  | joinArguments
  | emptySeparator
  | noDimensions
  | nonPositiveDimension
  | noSuchDimension
  | assertionFailed
  | notName (op : Builtin)
  deriving DecidableEq, Repr

def printTooLongMessage : String :=
  "Exceeds the limit (4300 digits) for integer string conversion; "
    ++ "use sys.set_int_max_str_digits() to increase the limit"

def IndexProblem.message : IndexProblem → String
  | wrongCount => "Incorrect number of tensor indices"
  | zero => "Tensor indices are 1-indexed"
  | outOfRange => "Tensor index out of range"

def Fault.message : Fault → String
  | undefined name => "Undefined identifier '" ++ name ++ "'"
  | undeclared name =>
    "Identifier '" ++ name ++ "' must be declared with a type before assignment"
  | declarationMismatch actual declared =>
    "Assigned value type " ++ actual.name ++ " does not match declaration " ++ declared
  | redeclared name current =>
    "Type mismatch for '" ++ name ++ "': previously declared as " ++ current.name
  | assignedMismatch name current actual =>
    "Type mismatch for '" ++ name ++ "': expected " ++ current.name ++ " but got " ++ actual.name
  | nameOfFunction name => "Identifier '" ++ name ++ "' already bound as function"
  | nameOfBuiltin name => "Function name '" ++ name ++ "' conflicts with built-in"
  | cannotDelete name => "Cannot delete undefined identifier '" ++ name ++ "'"
  | cellOfExpression => "Indexed assignment requires identifier base"
  | cellOfNonTensor => "Indexed assignment requires a tensor base"
  | indexOfNonTensor => "Indexed access requires a tensor"
  | cellMismatch => "Tensor element type mismatch"
  | index problem => problem.message
  | notInteger rule => rule ++ " expects integer value"
  | emptyLiteral => "Tensor literal cannot be empty"
  | raggedLiteral => "Inconsistent tensor shape"
  | returnOutside => "RETURN outside of function"
  | breakCount => "BREAK count must be > 0"
  | breakEscaped count => "BREAK(" ++ toString count ++ ") escaped enclosing loops"
  | continueOutside => "CONTINUE used outside loop"
  | tooDeep => "Maximum call depth exceeded"
  | closed => "Environment is closed"
  | printTooLong => "ValueError: " ++ printTooLongMessage
  | mustReturnTensor function => "Function " ++ function ++ " must return a tensor value"
  | returnMismatch function declared actual =>
    "Function " ++ function ++ " must return " ++ declared ++ " but got " ++ actual.name
  | unknownFunction name => "Unknown function '" ++ name ++ "'"
  | noKeywords function => function ++ " does not accept keyword arguments"
  | duplicateKeyword name => "Duplicate keyword argument '" ++ name ++ "'"
  | tooManyPositional function most given =>
    "Function " ++ function ++ " expects at most " ++ toString most
      ++ " positional arguments but received " ++ toString given
  | missingArgument param function =>
    "Missing required argument '" ++ param ++ "' for function " ++ function
  | argumentMismatch param declared actual =>
    "Argument for '" ++ param ++ "' expected " ++ declared ++ " but got " ++ actual.name
  | unexpectedKeywords names => "Unexpected keyword arguments: " ++ ", ".intercalate names
  | tooFewArguments op => op.name ++ " expects at least " ++ toString op.least ++ " arguments"
  | tooManyArguments op =>
    op.name ++ " expects at most " ++ toString (op.greatest.getD 0) ++ " arguments"
  | mixedKinds op first second =>
    op.name ++ " cannot mix " ++ first.name ++ " and " ++ second.name
  | notNumeric op => op.name ++ " expects INT or FLT arguments"
  | expects op kind => op.name ++ " expects " ++ kind.noun ++ " arguments"
  | notComparable op =>
    op.name ++ " expects two INT, FLT or STR arguments of the same type"
  | notOneNumericType op => op.name ++ " expects INT or FLT arguments of one type"
  | divisionByZero => "Division by zero"
  | remainderOfNonFinite => "MOD of a non-finite FLT"
  | negativeExponent => "Negative exponent not supported for INT"
  | fractionalExponent => "POW of a negative FLT needs an integral exponent"
  | powerOutOfRange => "POW result out of range"
  | notConvertible op => op.name ++ " expects INT, FLT or STR"
  | cannotConvert op text => op.name ++ " cannot convert '" ++ text ++ "'"
  | joinArguments => "JOIN expects a tensor and an optional separator"
  | emptySeparator => "SPLIT separator must be non-empty"
  | noDimensions => "Tensor shape must have at least one dimension"
  | nonPositiveDimension => "Tensor dimensions must be positive"
  | noSuchDimension => "TLEN dimension out of range"
  | assertionFailed => "Assertion failed"
  | notName op => op.name ++ " expects an identifier argument"

end SpanScript
