import SpanScript.Token

/-!
# The alphabet of the statement language

Which bytes are blanks, digits, name bytes and punctuation, and what the escape
sequences of string literals stand for.  All of it is ASCII; every other byte
may stand only in string literals and comments.
-/

namespace SpanScript.Alphabet

/-- A blank lies between tokens and means nothing. -/
def isBlank (b : UInt8) : Bool := b == 32 || b == 9 || b == 13

/-- A separator ends a statement: a newline or a semicolon. -/
def isSeparator (b : UInt8) : Bool := b == Bytes.newline || b == 59

/-- The byte `#`, which begins a comment. -/
def hash : UInt8 := 35

/-- The byte `\`, which begins an escape sequence. -/
def backslash : UInt8 := 92

/-- The byte `-`, which begins a negative number. -/
def minus : UInt8 := 45

/-- The byte `.`, which divides a number and may stand inside a name. -/
def dot : UInt8 := 46

def isDigit (b : UInt8) : Bool := 48 ≤ b && b ≤ 57

/-- A byte that may begin a name: a letter or an underscore. -/
def isNameStart (b : UInt8) : Bool :=
  (97 ≤ b && b ≤ 122) || (65 ≤ b && b ≤ 90) || b == 95

/-- A byte that may go on with a name. -/
def isNamePart (b : UInt8) : Bool := isNameStart b || isDigit b || b == dot

/-- A quote opens a string literal, and the same quote closes it. -/
def isQuote (b : UInt8) : Bool := b == 34 || b == 39

/-- The punctuation tokens. -/
def symbol? (b : UInt8) : Option TokenKind :=
  if b == 40 then some .lparen
  else if b == 41 then some .rparen
  else if b == 123 then some .lbrace
  else if b == 125 then some .rbrace
  else if b == 91 then some .lbracket
  else if b == 93 then some .rbracket
  else if b == 44 then some .comma
  else if b == 61 then some .equals
  else if b == 58 then some .colon
  else none

/-- The byte an escape sequence stands for, by the byte after the backslash. -/
def unescape? (b : UInt8) : Option UInt8 :=
  if b == 110 then some 10
  else if b == 116 then some 9
  else if b == backslash then some backslash
  else if isQuote b then some b
  else none

/-- The text of a run of ASCII bytes. -/
def ascii (bs : Bytes) : String := String.ofList (bs.map fun b => Char.ofNat b.toNat)

end SpanScript.Alphabet
