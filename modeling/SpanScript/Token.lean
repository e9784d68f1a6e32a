import SpanScript.Location

/-!
# Tokens

The words of the statement language.  A token knows its kind, its text (for a
string literal the text that the literal stands for), where it begins, and the
offsets it begins and ends at.
-/

namespace SpanScript

inductive Keyword
  | ifWord | elseifWord | elseWord | whileWord | forWord
  | funcWord | returnWord | breakWord | continueWord
  deriving DecidableEq, Repr

namespace Keyword

def spelling : Keyword → String
  | ifWord => "IF"
  | elseifWord => "ELSEIF"
  | elseWord => "ELSE"
  | whileWord => "WHILE"
  | forWord => "FOR"
  | funcWord => "FUNC"
  | returnWord => "RETURN"
  | breakWord => "BREAK"
  | continueWord => "CONTINUE"

def all : List Keyword :=
  [ifWord, elseifWord, elseWord, whileWord, forWord, funcWord, returnWord, breakWord,
    continueWord]

def ofSpelling? (s : String) : Option Keyword := all.find? (·.spelling == s)

theorem mem_all (k : Keyword) : k ∈ all := by
  cases k <;> decide

end Keyword

inductive TokenKind
  | number | float | string | ident | newline | eof
  | lparen | rparen | lbrace | rbrace | lbracket | rbracket
  | comma | equals | colon
  | keyword (k : Keyword)
  deriving DecidableEq, Repr

def TokenKind.name : TokenKind → String
  | .number => "NUMBER"
  | .float => "FLOAT"
  | .string => "STRING"
  | .ident => "IDENT"
  | .newline => "NEWLINE"
  | .eof => "EOF"
  | .lparen => "LPAREN"
  | .rparen => "RPAREN"
  | .lbrace => "LBRACE"
  | .rbrace => "RBRACE"
  | .lbracket => "LBRACKET"
  | .rbracket => "RBRACKET"
  | .comma => "COMMA"
  | .equals => "EQUALS"
  | .colon => "COLON"
  | .keyword k => k.spelling

/-- A word of the statement language, with its extent `[start, stop)`. -/
structure Token where
  kind : TokenKind
  text : String
  location : Location
  start : Nat
  stop : Nat
  deriving DecidableEq, Repr

end SpanScript
