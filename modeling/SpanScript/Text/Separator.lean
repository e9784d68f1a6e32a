/-!
# Separators

Cutting a text at each occurrence of a separator, joining pieces with one, and
putting one text in the place of another.  Occurrences are found from the left
and do not overlap: after one is found the search goes on behind it, so both
walks carry the number of characters that are still part of an occurrence.
-/

namespace SpanScript.Separator

/-- Puts a character in front of the first piece. -/
def consHead (c : Char) : List (List Char) → List (List Char)
  | p :: ps => (c :: p) :: ps
  | [] => [[c]]

/-- The pieces between the occurrences of `sep`, after `skip` characters that
belong to an occurrence. -/
def cutFrom (sep : List Char) : Nat → List Char → List (List Char)
  | _, [] => [[]]
  | skip + 1, _ :: rest => cutFrom sep skip rest
  | 0, c :: rest =>
    if sep.isPrefixOf (c :: rest) then [] :: cutFrom sep (sep.length - 1) rest
    else consHead c (cutFrom sep 0 rest)

/-- The pieces between the occurrences of a non-empty separator. -/
def cut (sep cs : List Char) : List (List Char) := cutFrom sep 0 cs

/-- The pieces with `sep` between each and the next. -/
def join (sep : List Char) : List (List Char) → List Char
  | [] => []
  | [p] => p
  | p :: q :: ps => p ++ sep ++ join sep (q :: ps)

/-- The text with `new` for each occurrence of `old`, after `skip` characters
that belong to an occurrence. -/
def replaceFrom (old new : List Char) : Nat → List Char → List Char
  | _, [] => []
  | skip + 1, _ :: rest => replaceFrom old new skip rest
  | 0, c :: rest =>
    if old.isPrefixOf (c :: rest) then new ++ replaceFrom old new (old.length - 1) rest
    else c :: replaceFrom old new 0 rest

/-- The text with `new` for each occurrence of `old`.  An empty `old` occurs
before each character and at the end. -/
def replace (old new cs : List Char) : List Char :=
  if old.isEmpty then new ++ cs.flatMap (fun c => c :: new) else replaceFrom old new 0 cs

end SpanScript.Separator
