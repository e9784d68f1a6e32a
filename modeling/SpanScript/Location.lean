import SpanScript.Bytes

/-!
# Places in a text

A place is a line and a column, both counted from one; columns count bytes.
Places are found in two ways: `Location.after` walks over bytes one at a time,
as a reader does, and `Bytes.locate` counts the newlines before an offset.
-/

namespace SpanScript

/-- A line and a column, both counted from one. -/
structure Location where
  line : Nat
  column : Nat
  deriving DecidableEq, Repr

namespace Location

def first : Location := ⟨1, 1⟩

/-- The place after one byte: a newline begins the next line. -/
def step (l : Location) (b : UInt8) : Location :=
  if b == Bytes.newline then ⟨l.line + 1, 1⟩ else ⟨l.line, l.column + 1⟩

def after (l : Location) (bs : Bytes) : Location := bs.foldl step l

/-- The place after what a slice of one byte shows; the slice is empty past the end of a
text, and counts as a column. -/
def pass (l : Location) : Option UInt8 → Location
  | some b => l.step b
  | none => ⟨l.line, l.column + 1⟩

/-- The place reached at offset `stop` of a text, from the place of offset `start`; each
offset past the end of the text counts as a column. -/
def reached (l : Location) (text : Bytes) (start stop : Nat) : Location :=
  let l := l.after (text.window start stop)
  ⟨l.line, l.column + (stop - max start text.length)⟩

/-- How a message names a place in a file. -/
def text (l : Location) (file : String) : String :=
  file ++ ":" ++ toString l.line ++ ":" ++ toString l.column

@[simp] theorem after_nil (l : Location) : l.after [] = l := rfl

@[simp] theorem after_cons (l : Location) (b : UInt8) (bs : Bytes) :
    l.after (b :: bs) = (l.step b).after bs := rfl

theorem after_append (l : Location) (as bs : Bytes) :
    l.after (as ++ bs) = (l.after as).after bs := List.foldl_append

end Location

/-- The place of an offset: the newlines before it, and its distance from the
last of them.  An offset past the end counts on from the last line. -/
def Bytes.locate (bs : Bytes) (offset : Nat) : Location :=
  let head := bs.take offset
  ⟨head.count newline + 1, offset - lineStart head + 1⟩

end SpanScript
