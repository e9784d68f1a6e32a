import SpanScript.Token.Quoted
import SpanScript.Bytes.Utf8

/-!
# Lexemes

A lexeme is a token without its place.  `Lexeme.scan` reads the one at the head
of a byte string; it knows neither offsets nor lines, so what a token is depends
on nothing but the bytes from its beginning on, and of those only on the ones it
takes and the one after them.
-/

namespace SpanScript

open Alphabet

/-- Why no token can be read.  The byte behind a backslash is missing where a buffer
ends and the bound lies behind it. -/
inductive LexProblem
  | unexpected (byte : UInt8)
  | loneMinus
  | unterminated
  | invalidUtf8
  | unknownEscape (byte : Option UInt8)
  deriving DecidableEq, Repr

def LexProblem.message : LexProblem → String
  | unexpected b => "Unexpected character '" ++ Utf8.decodeLossy [b] ++ "'"
  | loneMinus => "Expected digits after '-'"
  | unterminated => "Unterminated string literal"
  | invalidUtf8 => "Invalid UTF-8 in string literal"
  | unknownEscape b => "Unknown escape '\\" ++ Utf8.decodeLossy b.toList ++ "'"

/-- A problem, how many bytes were read before it showed, and whether it is
found there (`inside`) or at the beginning of the token. -/
structure LexStop where
  problem : LexProblem
  length : Nat
  inside : Bool := false
  deriving DecidableEq, Repr

/-- A token without its place: its kind, its text and its length in bytes. -/
structure Lexeme where
  kind : TokenKind
  text : String
  length : Nat
  deriving DecidableEq, Repr

namespace Lexeme

/-- A number, after its sign: digits, and a fraction if a dot and a digit
follow them. -/
def number (sign : Bytes) (bs : Bytes) : Lexeme :=
  let whole := bs.takeWhile isDigit
  let fraction := match bs.dropWhile isDigit with
    | d :: rest => if d == dot then rest.takeWhile isDigit else []
    | [] => []
  let written := sign ++ whole ++ (if fraction.isEmpty then [] else dot :: fraction)
  ⟨if fraction.isEmpty then .number else .float, ascii written, written.length⟩

/-- A name or a reserved word. -/
def word (bs : Bytes) : Lexeme :=
  let part := bs.takeWhile isNamePart
  let text := ascii part
  let kind := match Keyword.ofSpelling? text with
    | some k => .keyword k
    | none => .ident
  ⟨kind, text, part.length⟩

/-- A string literal, after its opening quote. -/
def quoted (quote : UInt8) (bs : Bytes) : Except LexStop Lexeme :=
  match Quoted.read quote bs with
  | .closed content length =>
    match Utf8.decode? content with
    | some text => .ok ⟨.string, text, length + 1⟩
    | none => .error { problem := .invalidUtf8, length := length + 1 }
  | .cut length => .error { problem := .unterminated, length := length + 1 }
  | .badEscape b length =>
    .error { problem := .unknownEscape b, length := length + 1, inside := true }

/-- The token at the head of bytes that begin with no gap. -/
def scan : Bytes → Except LexStop Lexeme
  | [] => .ok ⟨.eof, "", 0⟩
  | b :: rest =>
    if isSeparator b then .ok ⟨.newline, "\n", 1⟩
    else match symbol? b with
    | some kind => .ok ⟨kind, ascii [b], 1⟩
    | none =>
      if isQuote b then quoted b rest
      else if b == minus then
        if (rest.takeWhile isDigit).isEmpty then .error { problem := .loneMinus, length := 0 }
        else .ok (number [minus] rest)
      else if isDigit b then .ok (number [] (b :: rest))
      else if isNameStart b then .ok (word (b :: rest))
      else .error { problem := .unexpected b, length := 0 }

end Lexeme

end SpanScript
