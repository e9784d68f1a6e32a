import SpanScript.Bytes.Utf8

/-!
# Excerpts

A message about a template shows what comes next in it, cut to a limit in bytes.
A cut inside a character shows the replacement character.
-/

namespace SpanScript

/-- The first bytes of a sequence up to a limit; a negative limit leaves out as
many bytes at the end. -/
def Bytes.upTo (bs : Bytes) (limit : Int) : Bytes :=
  if limit < 0 then bs.take (bs.length - limit.natAbs) else bs.take limit.toNat

/-- The text of at most `limit` bytes, with dots after it if bytes are left
out. -/
def excerpt (rest : Bytes) (limit : Int) : String :=
  if rest.length ≤ limit then Utf8.decodeLossy rest
  else Utf8.decodeLossy (rest.upTo limit) ++ "..."

/-- Bytes within the limit are shown whole. -/
theorem excerpt_of_length_le {rest : Bytes} {limit : Nat} (h : rest.length ≤ limit) :
    excerpt rest limit = Utf8.decodeLossy rest := by
  unfold excerpt
  rw [if_pos (Int.ofNat_le.2 h)]

/-- Of more bytes than the limit only the first are shown. -/
theorem excerpt_of_lt_length {rest : Bytes} {limit : Nat} (h : limit < rest.length) :
    excerpt rest limit = Utf8.decodeLossy (rest.take limit) ++ "..." := by
  unfold excerpt Bytes.upTo
  rw [if_neg (by omega), if_neg (by omega), Int.toNat_natCast]

end SpanScript
