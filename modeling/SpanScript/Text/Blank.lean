/-!
# White space

The characters that part words in a text, which are more than the blanks of
the statement language: those of Unicode's white space and the four
information separators.
-/

namespace SpanScript.Blank

/-- Ranges of the white space characters. -/
def ranges : List (Nat × Nat) :=
  [(9, 13), (28, 32), (0x85, 0x85), (0xA0, 0xA0), (0x1680, 0x1680), (0x2000, 0x200A),
    (0x2028, 0x2029), (0x202F, 0x202F), (0x205F, 0x205F), (0x3000, 0x3000)]

/-- Whether a character parts words. -/
def isBlank (c : Char) : Bool :=
  ranges.any fun (first, last) => first ≤ c.toNat && c.toNat ≤ last

/-- A text without the white space at its ends. -/
def strip (cs : List Char) : List Char :=
  ((cs.dropWhile isBlank).reverse.dropWhile isBlank).reverse

/-- The pieces of a text between white space, empty ones too. -/
def pieces : List Char → List (List Char)
  | [] => [[]]
  | c :: rest =>
    if isBlank c then [] :: pieces rest
    else match pieces rest with
      | p :: ps => (c :: p) :: ps
      | [] => [[c]]

def words (cs : List Char) : List (List Char) := (pieces cs).filter fun w => !w.isEmpty

end SpanScript.Blank
