import SpanScript.Location

/-!
# Templates

A template may begin with a directive line, which begins with `#!`; its logical
bytes are those after that line, and all offsets are offsets into them.

`Template` is a template file that has been opened.  It answers for indices,
slices and searches as a sequence does, with negative numbers counted from the
end, and it can be closed, after which it is empty.  `PlacedText` is what a
statement is read from: the logical bytes, and the place of each offset in the
whole file.
-/

namespace SpanScript

/-- Where the directive line ends, with its newline; `0` if there is none. -/
def directiveEnd (raw : Bytes) : Nat :=
  match raw with
  | 35 :: 33 :: _ =>
    match Bytes.findFrom [Bytes.newline] 0 raw with
    | some n => n + 1
    | none => raw.length
  | _ => 0

/-- A text to read statements from, with the place of each offset. -/
structure PlacedText where
  text : Bytes
  locate : Nat → Location

/-- Bytes with the places they have as a whole file. -/
def PlacedText.ofBytes (text : Bytes) : PlacedText := ⟨text, text.locate⟩

inductive Holding
  | mapped
  | read
  deriving DecidableEq, Repr

def Holding.name : Holding → String
  | mapped => "mmap"
  | read => "read"

/-- An opened template.  The offsets of the newlines are found when they are
first needed, and are kept from then on. -/
structure Template where
  path : String
  holding : Holding
  raw : Bytes
  start : Nat
  newlines : Option (List Nat)
  closed : Bool

inductive AccessFault
  | indexOutOfRange
  | stepZero
  | notContiguous
  | placeTooLarge
  deriving DecidableEq, Repr

def AccessFault.message : AccessFault → String
  | indexOutOfRange => "SourceView index out of range"
  | stepZero => "slice step cannot be zero"
  | notContiguous => "SourceView slices must be contiguous"
  | placeTooLarge => "Python int too large to convert to C ssize_t"

namespace Template

def ofRaw (path : String) (holding : Holding) (raw : Bytes) : Template :=
  ⟨path, holding, raw, directiveEnd raw, none, false⟩

/-- The logical bytes. -/
def body (t : Template) : Bytes := t.raw.drop t.start

def length (t : Template) : Nat := t.raw.length - t.start

def directive (t : Template) : Bytes := t.raw.take t.start

/-- A bound of a slice as an offset: counted from the end if negative, and kept
within the sequence. -/
def clamp (length : Nat) (bound : Int) : Nat :=
  if bound < 0 then (bound + length).toNat else min bound.toNat length

def get (t : Template) (index : Int) : Except AccessFault UInt8 :=
  let i := if index < 0 then index + t.length else index
  if i < 0 then .error .indexOutOfRange
  else match t.body[i.toNat]? with
    | some b => .ok b
    | none => .error .indexOutOfRange

/-- The logical bytes between two bounds; a missing bound is the end on its
side. -/
def window (t : Template) (first last : Option Int) : Bytes :=
  let lo := match first with | some a => clamp t.length a | none => 0
  let hi := match last with | some b => clamp t.length b | none => t.length
  t.raw.window (t.start + lo) (t.start + hi)

/-- A slice; only the step one is allowed. -/
def slice (t : Template) (first last step : Option Int) : Except AccessFault Bytes :=
  match step.getD 1 with
  | 0 => .error .stepZero
  | 1 => .ok (t.window first last)
  | _ => .error .notContiguous

/-- Whether the bytes are those of a mapped file that is still open. -/
def mapping (t : Template) : Bool := t.holding = .mapped && !t.closed

/-- Whether a place in the whole file, or before it, is a number of 64 bits. -/
def addressable (place : Int) : Bool :=
  let bound : Int := Int.ofNat (Nat.pow 2 63)
  0 ≤ place + bound && place < bound

/-- The leftmost offset, at or after `first`, where `sub` begins.  A place
before the whole file is counted from the file's end.  A mapped file takes any
place past its end for its end, and takes only places of 64 bits. -/
def find (t : Template) (sub : Bytes) (first : Int) : Except AccessFault (Option Int) :=
  let size := t.raw.length
  let place : Int := t.start + first
  if t.mapping && !addressable place then .error .placeTooLarge
  else
    let place := if place < 0 then (place + size).toNat else place.toNat
    let place := if t.mapping then min place size else place
    .ok ((t.raw.find sub place).map fun n => (n : Int) - t.start)

/-- Whether the slice at an offset that is as long as `sub` is `sub`. -/
def startsWith (t : Template) (sub : Bytes) (offset : Int) : Bool :=
  t.window (some offset) (some (offset + sub.length)) == sub

/-- The offsets of the newlines, counted from `n` at the head. -/
def newlineOffsets (n : Nat) : Bytes → List Nat
  | [] => []
  | b :: rest =>
    if b == Bytes.newline then n :: newlineOffsets (n + 1) rest else newlineOffsets (n + 1) rest

/-- A template that knows where its newlines are. -/
def indexed (t : Template) : Template :=
  { t with newlines := some (t.newlines.getD (newlineOffsets 0 t.raw)) }

/-- Line and column of a logical offset, counted over the whole file. -/
def place (t : Template) (offset : Int) : Nat × Int :=
  let absolute : Int := t.start + offset
  let newlines := t.newlines.getD (newlineOffsets 0 t.raw)
  let before := newlines.takeWhile fun (n : Nat) => decide ((n : Int) < absolute)
  let lineStart : Int := match before.getLast? with | some n => n + 1 | none => 0
  (before.length + 1, absolute - lineStart + 1)

/-- The logical bytes with their places in the whole file. -/
def placed (t : Template) : PlacedText :=
  let t := t.indexed
  { text := t.body
    locate := fun offset =>
      let (line, column) := t.place offset
      ⟨line, column.toNat⟩ }

/-- Closes a template: it holds nothing any more.  Closing again changes
nothing. -/
def close (t : Template) : Template :=
  if t.closed then t else { t with raw := [], start := 0, closed := true }

theorem close_close (t : Template) : t.close.close = t.close := by
  unfold close
  by_cases h : t.closed = true <;> simp [h]

end Template

end SpanScript
