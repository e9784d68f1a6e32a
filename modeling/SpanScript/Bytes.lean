/-!
# Byte strings

A template is a sequence of bytes, and so are the slices of it that are copied,
searched and lexed.  This file fixes that representation and the few searches
the rest of the library is built on: `findFrom` gives the leftmost place where
one byte string begins inside another, `window` cuts a piece between two
offsets, and `line` and `column` count the place of an offset.

Everything here is a function on lists, so the library lemmas on `take`,
`drop` and `++` apply as they stand.
-/

namespace SpanScript

abbrev Bytes := List UInt8

namespace Bytes

def newline : UInt8 := 10

/-- The UTF-8 encoding of a text. -/
def ofString (s : String) : Bytes := s.toList.flatMap String.utf8EncodeChar

/-- The bytes from offset `a` up to, not including, offset `b`. -/
def window (bs : Bytes) (a b : Nat) : Bytes := (bs.drop a).take (b - a)

/-- The leftmost place at or after the head where `needle` begins, counted
from `pos` at the head. -/
def findFrom (needle : Bytes) (pos : Nat) : Bytes → Option Nat
  | [] => if needle.isEmpty then some pos else none
  | b :: rest =>
    if needle.isPrefixOf (b :: rest) then some pos else findFrom needle (pos + 1) rest

/-- The leftmost offset, at or after `start`, where `needle` begins in `bs`. -/
def find (bs needle : Bytes) (start : Nat) : Option Nat :=
  if start ≤ bs.length then findFrom needle start (bs.drop start) else none

/-- The offset just past the last newline, or `0` when there is none. -/
def lineStart (bs : Bytes) : Nat :=
  bs.length - (bs.reverse.takeWhile (· != newline)).length

/-! ## Lemmas -/

/-- A search never answers before the place it started from. -/
theorem le_of_findFrom (needle : Bytes) : ∀ (bs : Bytes) (pos n : Nat),
    findFrom needle pos bs = some n → pos ≤ n := by
  intro bs
  induction bs with
  | nil =>
    intro pos n h
    unfold findFrom at h
    split at h
    · exact Nat.le_of_eq (Option.some.inj h)
    · exact absurd h (by simp)
  | cons b rest ih =>
    intro pos n h
    unfold findFrom at h
    split at h
    · exact Nat.le_of_eq (Option.some.inj h)
    · exact Nat.le_of_succ_le (ih _ _ h)

end Bytes

end SpanScript
