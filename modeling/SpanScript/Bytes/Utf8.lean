import SpanScript.Bytes

/-!
# Reading UTF-8

`scan` reads a byte string as a sequence of characters and of faults: a fault
stands for one *maximal* ill-formed part, that is, a byte that can begin
nothing, or a beginning that is cut short by a byte that cannot follow it (that
byte is then read again as a beginning) or by the end of the bytes.

The two readings of the library are both this scan.  `decode?` refuses any
fault, so it accepts the shortest forms only and no surrogates; `decodeLossy`
puts the replacement character in the place of each fault.
-/

namespace SpanScript.Utf8

/-- Where a scan stands: between characters, or inside one, knowing which
bytes may follow, the bits read so far and how many bytes are still due. -/
inductive Pending
  | none
  | partway (low high : UInt8) (bits : Nat) (due : Nat)

/-- What a byte begins: a whole character, a longer sequence, or nothing. -/
inductive Start
  | whole (c : Char)
  | longer (p : Pending)
  | fault

/-- The beginnings of well-formed sequences.  The ranges for the second byte
leave out the overlong forms, the surrogates and what lies above `U+10FFFF`. -/
def start (b : UInt8) : Start :=
  if b < 0x80 then .whole (Char.ofNat b.toNat)
  else if b < 0xC2 then .fault
  else if b < 0xE0 then .longer (.partway 0x80 0xBF (b.toNat - 0xC0) 0)
  else if b == 0xE0 then .longer (.partway 0xA0 0xBF 0 1)
  else if b == 0xED then .longer (.partway 0x80 0x9F 0xD 1)
  else if b < 0xF0 then .longer (.partway 0x80 0xBF (b.toNat - 0xE0) 1)
  else if b == 0xF0 then .longer (.partway 0x90 0xBF 0 2)
  else if b < 0xF4 then .longer (.partway 0x80 0xBF (b.toNat - 0xF0) 2)
  else if b == 0xF4 then .longer (.partway 0x80 0x8F 4 2)
  else .fault

/-- The characters and faults of a byte string, read from a given standing. -/
def scanFrom : Pending → Bytes → List (Option Char)
  | .none, [] => []
  | .partway .., [] => [none]
  | .none, b :: rest =>
    match start b with
    | .whole c => some c :: scanFrom .none rest
    | .longer p => scanFrom p rest
    | .fault => none :: scanFrom .none rest
  | .partway low high bits due, b :: rest =>
    if low ≤ b ∧ b ≤ high then
      let bits := bits * 64 + (b.toNat - 0x80)
      match due with
      | 0 => some (Char.ofNat bits) :: scanFrom .none rest
      | due + 1 => scanFrom (.partway 0x80 0xBF bits due) rest
    else
      match start b with
      | .whole c => none :: some c :: scanFrom .none rest
      | .longer p => none :: scanFrom p rest
      | .fault => none :: none :: scanFrom .none rest

/-- The characters and faults of a byte string. -/
def scan (bs : Bytes) : List (Option Char) := scanFrom .none bs

/-- The text that `bs` encodes, if it is well formed. -/
def decode? (bs : Bytes) : Option String := ((scan bs).mapM id).map String.ofList

/-- The character that stands for a fault. -/
def replacement : Char := Char.ofNat 0xFFFD

/-- The text that `bs` encodes, with each fault replaced. -/
def decodeLossy (bs : Bytes) : String :=
  String.ofList ((scan bs).map (·.getD replacement))

end SpanScript.Utf8
