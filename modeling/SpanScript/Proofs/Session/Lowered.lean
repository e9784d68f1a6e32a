import SpanScript.Proofs.Session.Places

/-!
# Sessions one line further down

A text may have its places one line further down than another one, byte for byte the
same otherwise.  A session that reads its statements from there binds and prints the
same and ends them the same way; the places in its functions, and in what it says of a
failure, are one line further down.

* `next_lower`: reading a statement.
* `execute_lower`: a render asks for a statement.
-/

namespace SpanScript

/-! ## Places -/

/-- The place one line further down. -/
def Location.lower (l : Location) : Location := ⟨l.line + 1, l.column⟩

theorem Location.step_lower (l : Location) (b : UInt8) : l.lower.step b = (l.step b).lower := by
  unfold step
  split <;> rfl

theorem Location.after_lower (l : Location) (bs : Bytes) :
    l.lower.after bs = (l.after bs).lower := by
  induction bs generalizing l with
  | nil => rfl
  | cons b bs ih => rw [after_cons, after_cons, step_lower, ih]

def PlacedText.lower (t : PlacedText) : PlacedText :=
  ⟨t.text, fun offset => (t.locate offset).lower⟩

def Cursor.lower (c : Cursor) : Cursor := { c with location := c.location.lower }

theorem Cursor.move_lower (c : Cursor) (n : Nat) : c.lower.move n = (c.move n).lower := by
  unfold move lower
  rw [Location.after_lower]

/-- The next token comes one line further down, and so does a problem with it. -/
theorem Cursor.next_lower (c : Cursor) :
    c.lower.next = match c.next with
      | .ok (t, d) => .ok ({ t with location := t.location.lower }, d.lower)
      | .error x => .error { x with location := x.location.lower } := by
  have hgap : c.lower.move (gap c.rest) = (c.move (gap c.rest)).lower := c.move_lower _
  unfold next
  generalize c.move (gap c.rest) = d at hgap
  have hrest : c.lower.rest = c.rest := rfl
  simp only [hrest, hgap, move_lower]
  have hrest : d.lower.rest = d.rest := rfl
  rw [hrest]
  cases Lexeme.scan d.rest with
  | ok l => rfl
  | error e =>
    dsimp only
    cases e.inside <;> rfl

/-! ## Reading -/

namespace Reader

/-- The second cursor is the first one, one line further down. -/
def Lowered (c d : Cursor) : Prop := d = c.lower

theorem bisimulates_lowered : Cursor.Bisimulates Location.lower id Lowered where
  token := by
    rintro c _ c' t rfl hn
    have h := c.next_lower
    rw [hn] at h
    exact ⟨_, _, h, ⟨rfl, rfl, rfl⟩, rfl⟩
  fault := by
    rintro c _ x rfl hn
    have h := c.next_lower
    rw [hn] at h
    exact ⟨_, h, rfl, rfl⟩

/-- **Reading a statement one line further down** gives the statement with its places
there, up to the same offset; a text that is no statement has its problem there. -/
theorem next_lower (types : List TypeName) (nesting : Nat) (c : Cursor) :
    (∃ stmt s t, next types nesting (.start c) = (.ok stmt, s) ∧
      next types nesting (.start c.lower) = (.ok (stmt.relocate Location.lower), t) ∧
      t.endOffset = s.endOffset) ∨
    ∃ x s t, next types nesting (.start c) = (.error x, s) ∧
      next types nesting (.start c.lower) = (.error (x.relocate Location.lower), t) := by
  have hstart : Related Lowered (.start c) (.start c.lower) := ⟨rfl, rfl, rfl⟩
  rcases agree_oneStatement (L := .ofCursors bisimulates_lowered) types nesting True hstart with
    ⟨a, s, b, t, hc, hd, hab, hst, -⟩ | ⟨x, s, y, t, hc, hd, hxy, -⟩
  · obtain rfl : a.relocate Location.lower = b := Eq.trans hab b.relocate_id
    refine .inl ⟨a, s, t, hc, hd, ?_⟩
    obtain ⟨-, -, -, -, hs, -⟩ := next_sound hc
    obtain ⟨-, -, -, -, ht, -⟩ := next_sound hd
    rw [hs, ht, hst.cursor]
    rfl
  · obtain rfl : x.relocate Location.lower = y := by
      rw [hxy]
      cases y <;> rfl
    exact .inr ⟨x, s, t, hc, hd⟩

end Reader

/-! ## Running -/

namespace Session

/-- A session whose functions were read one line further down. -/
def lower (s : Session) : Session := { s with store := s.store.relocate Location.lower }

/-- How a statement ends that was read one line further down: in the same way, but that
a report of a failure puts it there. -/
inductive Lowers (file : String) : Outcome → Outcome → Prop
  | ended {stop : Int} : Lowers file (.ended stop) (.ended stop)
  | located {what : String} {loc : Location} {offset : Int} :
      Lowers file (.failed (what ++ " at " ++ loc.text file) offset)
        (.failed (what ++ " at " ++ loc.lower.text file) offset)
  | tooDeep {offset : Nat} :
      Lowers file (.failed ("Statement nests too deeply at offset " ++ toString offset) offset)
        (.failed ("Statement nests too deeply at offset " ++ toString offset) offset)
  | escaped {message : String} : Lowers file (.escaped message) (.escaped message)
  | unfinished : Lowers file .unfinished .unfinished

theorem lowers_ofParseFault (file : String) (offset : Nat) (x : ParseFault) :
    Lowers file (ofParseFault file offset x)
      (ofParseFault file offset (x.relocate Location.lower)) := by
  cases x with
  | located problem loc => exact .located
  | tooDeep => exact .tooDeep
  | literalTooLong n => exact .escaped

theorem lowers_ofFailure (file : String) (offset : Nat) (x : Failure) :
    Lowers file (ofFailure file offset x) (ofFailure file offset (x.relocate Location.lower)) := by
  cases x with
  | fault cause loc => exact .located
  | escaped what => exact .escaped
  | unfinished => exact .unfinished

/-- **A statement one line further down** does the same, and says so there. -/
theorem perform_lower (s : Session) (text : PlacedText) (offset : Nat) :
    Lowers s.file (s.perform text offset).1 (s.lower.perform text.lower offset).1 ∧
      (s.lower.perform text.lower offset).2 = (s.perform text offset).2.lower ∧
      (s.perform text offset).2.file = s.file := by
  have hc : (Cursor.ofText text.text offset text.text.length (text.locate offset)).lower
      = .ofText text.lower.text offset text.lower.text.length (text.lower.locate offset) := rfl
  unfold perform parse
  rw [← hc]
  rcases Reader.next_lower Kind.names s.limits.nesting
    (.ofText text.text offset text.text.length (text.locate offset)) with
    ⟨stmt, r, r', hr, hr', hend⟩ | ⟨x, r, r', hr, hr'⟩
  · have hrun := runStatement_relocate Location.lower s.limits s.store stmt
    have hs : s.lower.store = s.store.relocate Location.lower := rfl
    have hl : s.lower.limits = s.limits := rfl
    simp only [hr, hl, hr', hs, hrun, hend]
    rcases runStatement s.limits s.store stmt with ⟨x | _, store⟩
    · exact ⟨lowers_ofFailure _ _ _, rfl, rfl⟩
    · exact ⟨.ended, rfl, rfl⟩
  · have hl : s.lower.limits = s.limits := rfl
    simp only [hr, hl, hr']
    exact ⟨lowers_ofParseFault _ _ _, trivial, trivial⟩

end Session

/-- **A render asks for a statement one line further down**: the answer is the same, but
for the places in it. -/
theorem execute_lower (s : Session) (text : PlacedText) (offset : Nat) :
    Session.Lowers s.file (Boundary.session.execute s text offset).outcome
        (Boundary.session.execute s.lower text.lower offset).outcome ∧
      (Boundary.session.execute s.lower text.lower offset).written
        = (Boundary.session.execute s text offset).written ∧
      (Boundary.session.execute s.lower text.lower offset).environment
        = Session.lower (Boundary.session.execute s text offset).environment ∧
      (Boundary.session.execute s text offset).environment.file = s.file := by
  obtain ⟨ho, hs, hf⟩ := s.perform_lower text offset
  simp only [Boundary.session]
  generalize s.perform text offset = x at ho hs hf ⊢
  generalize s.lower.perform text.lower offset = y at ho hs ⊢
  obtain ⟨o, t⟩ := y
  obtain rfl : t = x.2.lower := hs
  exact ⟨ho, rfl, rfl, hf⟩

end SpanScript
