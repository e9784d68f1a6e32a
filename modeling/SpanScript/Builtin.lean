/-!
# Built-in functions

The functions that every program has: their names and how many arguments each
takes.  Two of them, `DEL` and `EXIST`, speak of a name and not of its value, so
their argument is not evaluated.
-/

namespace SpanScript

inductive Builtin
  | add | sub | mul | div | mod | pow | neg | abs
  | eq | gt | lt | gte | lte
  | and | or | not | bool
  | sum | max | min
  | int | flt | str | type
  | slen | upper | lower | replace | join | split
  | tns | shape | tlen
  | print | println | assert
  | del | exist
  deriving DecidableEq, Repr

namespace Builtin

def name : Builtin → String
  | add => "ADD"
  | sub => "SUB"
  | mul => "MUL"
  | div => "DIV"
  | mod => "MOD"
  | pow => "POW"
  | neg => "NEG"
  | abs => "ABS"
  | eq => "EQ"
  | gt => "GT"
  | lt => "LT"
  | gte => "GTE"
  | lte => "LTE"
  | and => "AND"
  | or => "OR"
  | not => "NOT"
  | bool => "BOOL"
  | sum => "SUM"
  | max => "MAX"
  | min => "MIN"
  | int => "INT"
  | flt => "FLT"
  | str => "STR"
  | type => "TYPE"
  | slen => "SLEN"
  | upper => "UPPER"
  | lower => "LOWER"
  | replace => "REPLACE"
  | join => "JOIN"
  | split => "SPLIT"
  | tns => "TNS"
  | shape => "SHAPE"
  | tlen => "TLEN"
  | print => "PRINT"
  | println => "PRINTLN"
  | assert => "ASSERT"
  | del => "DEL"
  | exist => "EXIST"

def all : List Builtin :=
  [add, sub, mul, div, mod, pow, neg, abs, eq, gt, lt, gte, lte, and, or, not, bool, sum, max,
    min, int, flt, str, type, slen, upper, lower, replace, join, split, tns, shape, tlen, print,
    println, assert, del, exist]

def ofName? (s : String) : Option Builtin := all.find? (·.name == s)

/-- The least number of arguments. -/
def least : Builtin → Nat
  | print | println => 0
  | neg | abs | not | bool | sum | max | min | int | flt | str | type | slen | upper | lower
  | join | split | shape | tlen | assert | del | exist => 1
  | replace => 3
  | _ => 2

/-- The greatest number of arguments, if there is one. -/
def greatest : Builtin → Option Nat
  | sum | max | min | join | print | println => none
  | neg | abs | not | bool | int | flt | str | type | slen | upper | lower | shape | assert
  | del | exist => some 1
  | replace => some 3
  | _ => some 2

/-- Whether the argument is taken as it is written. -/
def takesName : Builtin → Bool
  | del | exist => true
  | _ => false

theorem mem_all (b : Builtin) : b ∈ all := by
  cases b <;> decide

end Builtin

end SpanScript
