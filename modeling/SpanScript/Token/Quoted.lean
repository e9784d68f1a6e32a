import SpanScript.Token.Alphabet

/-!
# String literals

A string literal is a quote, then items, then the same quote.  An item is a
byte other than that quote, a backslash or a newline, and stands for itself, or
it is a backslash with one of five bytes after it.  `Quoted.read` reads what
follows the opening quote and says how it ends; nothing is decoded here, so the
content is bytes.
-/

namespace SpanScript

/-- How a string literal ends. -/
inductive Quoted
  /-- At its closing quote, which `length` counts in. -/
  | closed (content : Bytes) (length : Nat)
  /-- Never: a newline or the end comes after `length` bytes. -/
  | cut (length : Nat)
  /-- At an escape sequence that stands for nothing; `length` counts the
  bytes up to the one after the backslash. -/
  | badEscape (byte : UInt8) (length : Nat)
  deriving DecidableEq, Repr

namespace Quoted

/-- The same end, seen from before an item of `n` bytes that stands for `bs`. -/
def before (n : Nat) (bs : Bytes) : Quoted → Quoted
  | closed content length => closed (bs ++ content) (n + length)
  | cut length => cut (n + length)
  | badEscape byte length => badEscape byte (n + length)

/-- How the literal ends whose opening `quote` has just been read. -/
def read (quote : UInt8) : Bytes → Quoted
  | [] => cut 0
  | b :: rest =>
    if b == quote then closed [] 1
    else if b == Bytes.newline then cut 0
    else if b == Alphabet.backslash then
      match rest with
      | [] => cut 1
      | e :: rest =>
        match Alphabet.unescape? e with
        | some v => (read quote rest).before 2 [v]
        | none => badEscape e 1
    else (read quote rest).before 1 [b]

end Quoted

end SpanScript
