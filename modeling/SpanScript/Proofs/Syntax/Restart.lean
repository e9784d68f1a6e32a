import Mathlib
import SpanScript.Proofs.Syntax.Buffer
import SpanScript.Proofs.Syntax.Places

/-!
# Parsing can be begun again behind a statement

A parser that has read statements has looked ahead: it keeps tokens of the next one, and its
lexer is behind them.  One that is begun anew where the last statement ended, in the middle
of the gap before the next token, has a lexer that is farther back, and no tokens.  It
trails the old one: what it lexes the other one has kept, and where that one lexes, both
lexers stand at one place.  Then they stay together, also where no token can be read.

* `Lockstep.trailing`: a parser and one behind it are read in step.
* `Intact`: a parser that has met no fault has kept all that its lexer gave.
* `Parser.Reached`: the parsers that reading statements leads to.
* `Parser.future`: everything that is read from a parser on, faults and what comes behind
  them too.
* `next_restarts`: the future is that of a new parser at the end of the last statement.
-/

namespace SpanScript

open Reader

namespace Parser

variable {s s' t t' : Parser} {l : Lexer} {pre ext : List Token} {types : List TypeName}
  {nesting : Nat}
  {stmt : Stmt}

/-! ## In step -/

/-- A parser and one behind it.  If it is known where the lexer of the first one began, that is
where all its tokens come from. -/
structure Leads (pre : List Token) (origin : Option Lexer) (s t : Parser) : Prop where
  trails : ∃ ext, Trails pre ext s t
  gives : ∀ l ∈ origin, l.Gives s.tokens s.lexer

variable {origin : Option Lexer} {d : Nat} {x y : Token}

theorem Trails.Sees.leads (h : Trails.Sees pre d x s t s' t') (hg : Leads pre origin s t) :
    Leads pre origin s' t' := ⟨h.trails, fun l hl => h.gives l (hg.gives l hl)⟩

end Parser

open SpanScript.Parser in
/-- A parser and one behind it are read in step. -/
def Reader.Lockstep.trailing (pre : List Token) (origin : Option Lexer) :
    Lockstep id id Parser Parser where
  Level := Leads pre origin
  Beside s t d e := e = d ∧ Trails.InView s t d
  Halted s t := ∃ ext, Trails pre ext s t
  SameFault x y := x = y
  Fair _ := True
  taken s := s.index
  halted h := h.trails
  fault {x y} h := by
    rw [x.relocate_id, y.relocate_id] at h
    exact congrArg Parser.Fault.plain h
  integer {t} _ _ := by
    cases h : TokenSource.integer Parser t.text with
    | ok v => exact .inl ⟨v, rfl, rfl⟩
    | error x => exact .inr ⟨x, x, rfl, rfl, rfl⟩
  bound := by
    rintro s t ⟨⟨ext, h⟩, -⟩
    exact congrArg (· + 1) h.gives.leads.bound_eq
  here := by
    rintro s t ⟨⟨ext, h⟩, -⟩
    exact ⟨rfl, h.inView⟩
  look := by
    rintro s t d _ hst ⟨rfl, hv⟩
    obtain ⟨ext, h⟩ := hst.trails
    rcases h.looks hv with ⟨x, s', t', hsees⟩ | ⟨f, s', t', hbreaks⟩
    · exact .inl ⟨x, _, s', x, _, t', hsees.left, hsees.right, ⟨rfl, rfl, rfl⟩, trivial,
        hsees.leads hst, hsees.index, fun hx => ⟨rfl, hsees.inView_succ h hv hx⟩⟩
    · exact .inr ⟨_, s', _, t', hbreaks.left, hbreaks.right, rfl, [], hbreaks.trails⟩
  again hst hx := by
    obtain ⟨ext, h⟩ := hst.trails
    exact h.again hx
  stays hst hplace hx hy := by
    obtain ⟨ext, h⟩ := hst.trails
    exact h.stays hplace.2 hx hy
  take := by
    rintro s t x e s' y e' t' hst hx hy he
    obtain ⟨ext, h⟩ := hst.trails
    obtain ⟨u, hsees⟩ := h.sees_of_gives h.inView hx
    obtain ⟨heq, rfl⟩ := hsees.right.unique hy
    cases heq
    obtain ⟨ext', htrails⟩ := hsees.trails
    refine ⟨⟨⟨ext', htrails.take (hsees.index ▸ hsees.kept) (hsees.index' ▸ hsees.kept') he⟩,
      (hsees.leads hst).gives⟩, ?_⟩
    exact hsees.index.symm.trans_lt (Nat.lt_succ_self _)

namespace Parser

variable {s s' t : Parser} {l : Lexer} {pre : List Token} {types : List TypeName} {nesting : Nat}
  {stmt : Stmt}

/-! ## Reading statements -/

/-- **A parser and one behind it read the same statement**, up to the same offset, or come to
the same fault. -/
theorem Leads.next {origin : Option Lexer} (h : Leads pre origin s t) (types : List TypeName)
    (nesting : Nat) :
    (∃ stmt s' t', s.next types nesting = (.ok stmt, s') ∧ t.next types nesting = (.ok stmt, t') ∧
      s'.endOffset = t'.endOffset ∧ Leads pre origin s' t' ∧ s.index < s'.index) ∨
    ∃ f s' t' ext, s.next types nesting = (.error f, s') ∧ t.next types nesting = (.error f, t') ∧
      Trails pre ext s' t' := by
  rcases agree_oneStatement (L := .trailing pre origin) types nesting True h with
    ⟨a, s', b, t', hs, ht, hab, h', -, htaken⟩ | ⟨f, s', g, t', hs, ht, rfl, ext, h'⟩
  · obtain rfl : a = b := by
      have hab : a.relocate id = b.relocate id := hab
      rwa [a.relocate_id, b.relocate_id] at hab
    have hlt : s.index < s'.index := htaken trivial
    obtain ⟨ext, htrails⟩ := h'.trails
    obtain ⟨ext₀, htrails₀⟩ := h.trails
    have hindex : t'.index ≠ 0 := by
      have h₀ := htrails₀.index
      have h₁ := htrails.index
      omega
    exact .inl ⟨a, s', t', hs, ht, htrails.endOffset_eq hindex, h', hlt⟩
  · exact .inr ⟨f, s', t', ext, hs, ht, h'⟩

/-- The parsers that reading statements leads to. -/
inductive Reached (types : List TypeName) (nesting : Nat) (p : Parser) : Parser → Prop
  | refl : Reached types nesting p p
  | next {s s' : Parser} {stmt : Stmt} : Reached types nesting p s →
      s.next types nesting = (.ok stmt, s') → Reached types nesting p s'

/-- What so many further statements come to: each with the offset it ends at, or the fault
with it; behind a fault reading goes on. -/
def future (types : List TypeName) (nesting : Nat) : Nat → Parser →
    List (Except Fault (Stmt × Nat))
  | 0, _ => []
  | n + 1, p =>
    let (r, p') := p.next types nesting
    (r.map fun stmt => (stmt, p'.endOffset)) :: future types nesting n p'

/-- A parser and one behind it have the same future. -/
theorem Trails.future_eq {ext : List Token} (h : Trails pre ext s t) : ∀ n : Nat,
    future types nesting n t = future types nesting n s := by
  intro n
  induction n generalizing s t ext with
  | zero => rfl
  | succ n ih =>
    have hleads : Leads pre none s t := ⟨⟨ext, h⟩, nofun⟩
    rw [future, future]
    rcases hleads.next types nesting with
      ⟨stmt, s', t', hs, ht, hend, h', -⟩ | ⟨f, s', t', ext', hs, ht, h'⟩
    · obtain ⟨ext', htrails⟩ := h'.trails
      rw [hs, ht]
      dsimp only
      rw [hend, ih htrails]
    · rw [hs, ht]
      dsimp only
      rw [ih h']
      rfl

/-- A parser that has met no fault: its tokens are those that its lexer gave, from the
beginning on. -/
structure Intact (l : Lexer) (p : Parser) : Prop where
  gives : l.Gives p.tokens p.lexer
  index_le : p.index ≤ p.tokens.length
  endless : Endless (p.tokens.take p.index)
  begun : p = start l ∨ p.index ≠ 0

theorem intact_start (l : Lexer) : Intact l (start l) :=
  ⟨.nil l, Nat.le_refl 0, List.forall_mem_nil _, .inl rfl⟩

/-- A statement that is read leaves a parser without a fault. -/
theorem Intact.next (h : Intact l s) (hn : s.next types nesting = (.ok stmt, s')) :
    Intact l s' := by
  -- the parser is read in step with itself
  have htrails : Trails [] [] s s :=
    ⟨(List.append_nil _).symm, (Nat.zero_add _).symm, .nil _, h.endless, h.index_le⟩
  have hleads : Leads [] (some l) s s := ⟨⟨[], htrails⟩, fun _ hm => Option.some.inj hm ▸ h.gives⟩
  rcases hleads.next types nesting with
    ⟨_, u, t', hs, -, -, h', hlt⟩ | ⟨f, u, t', ext, hs, -⟩
  · rw [hn] at hs
    cases hs
    obtain ⟨ext, htrails'⟩ := h'.trails
    have hle := htrails'.place_le (d := 0) htrails'.index_le
    exact ⟨h'.gives l rfl, hle, htrails'.endless, .inr (Nat.ne_zero_of_lt hlt)⟩
  · rw [hn] at hs
    cases hs

theorem Reached.intact (h : Reached types nesting (start l) s) : Intact l s := by
  induction h with
  | refl => exact intact_start l
  | next _ hn ih => exact ih.next hn

/-- The last statement ends where the lexer stood behind the tokens that are taken. -/
theorem Intact.endOffset_eq (h : Intact l s) {m : Lexer}
    (hm : l.Gives (s.tokens.take s.index) m) : s.endOffset = m.index := by
  rcases h.begun with rfl | hindex
  · cases hm
    rfl
  · obtain ⟨i, x, hi, hx⟩ := exists_last hindex h.index_le
    rw [hi, List.take_add_one, hx] at hm
    rw [endOffset_of_kept hi hx]
    exact hm.stop_eq

/-- **A new parser at the end of the last statement** is behind the old one. -/
theorem Intact.trails (h : Intact l s) : ∃ m pre ext, l.Leads m ∧ s.endOffset = m.index ∧
    Trails pre ext s (Parser.start m) := by
  have hsplit : s.tokens = s.tokens.take s.index ++ s.tokens.drop s.index :=
    (List.take_append_drop _ _).symm
  have hgives := h.gives
  rw [hsplit] at hgives
  obtain ⟨m, hm, hext⟩ := hgives.split
  refine ⟨m, s.tokens.take s.index, s.tokens.drop s.index, hm.leads, h.endOffset_eq hm, ?_, ?_,
    hext, h.endless, Nat.le_refl 0⟩
  · rw [Parser.start, List.append_nil]
    exact hsplit
  · rw [List.length_take_of_le h.index_le]
    rfl

/-- **Parsing can be begun again at the end of every statement.**  After any number of
statements have been read from any offset of a buffer, up to any bound, a new parser at the
offset where the last of them ended, with the line and the column that are reached there,
reads the same as the old one would, however often it is asked: the same statements with the
same places, ending at the same offsets, and the same faults, with what is read behind each
of them. -/
theorem next_restarts (types : List TypeName) (nesting : Nat) {text : Bytes} {start stop : Nat}
    {loc : Location} {s : Parser}
    (h : Reached types nesting (.start (.ofText text start stop loc)) s) (n : Nat) :
    future types nesting n
        (.start (.ofText text s.endOffset stop (loc.reached text start s.endOffset)))
      = future types nesting n s := by
  obtain ⟨m, pre, ext, hleads, hend, htrails⟩ := h.intact.trails
  rw [← Location.reached_self loc text start] at hleads
  have hm := hleads.eq_ofText (Nat.le_refl start)
  rw [hend, ← hm]
  exact htrails.future_eq n

/-- An assignment, a string literal that is cut by a newline, and another assignment, in a buffer
that ends in front of the bound.  The old parser has looked at the semicolon; both come to the
literal, go on behind it, and count the offsets past the end to the last number. -/
theorem next_restarts_behind_fault :
    let text : Bytes := [120, 61, 49, 59, 34, 97, 10, 121, 61, 50]
    ∃ s, Reached ["INT"] 8 (.start (.ofText text 0 12 ⟨1, 1⟩)) s ∧ s.endOffset = 3 ∧
      future ["INT"] 8 3 (.start (.ofText text 3 12 ⟨1, 4⟩)) =
        [.error (.plain (.located (.lexical .unterminated) ⟨1, 5⟩)),
          .ok (.assign ⟨2, 1⟩ "y" (.literal ⟨2, 3⟩ (.int 2)) none, 12),
          .error (.plain (.located .statementExpected ⟨2, 6⟩))] := by
  intro text
  have hfirst : next ["INT"] 8 (.start (.ofText text 0 12 ⟨1, 1⟩)) =
      (.ok (.assign ⟨1, 1⟩ "x" (.literal ⟨1, 3⟩ (.int 1)) none),
        ⟨⟨[34, 97, 10, 121, 61, 50], 8, 4, ⟨1, 5⟩⟩,
          [⟨.ident, "x", ⟨1, 1⟩, 0, 1⟩, ⟨.equals, "=", ⟨1, 2⟩, 1, 2⟩, ⟨.number, "1", ⟨1, 3⟩, 2, 3⟩,
            ⟨.newline, "\n", ⟨1, 4⟩, 3, 4⟩], 3⟩) := by cbv
  have hreached := Reached.refl.next hfirst
  refine ⟨_, hreached, rfl, ?_⟩
  have hfuture : future ["INT"] 8 3 ⟨⟨[34, 97, 10, 121, 61, 50], 8, 4, ⟨1, 5⟩⟩,
      [⟨.ident, "x", ⟨1, 1⟩, 0, 1⟩, ⟨.equals, "=", ⟨1, 2⟩, 1, 2⟩, ⟨.number, "1", ⟨1, 3⟩, 2, 3⟩,
        ⟨.newline, "\n", ⟨1, 4⟩, 3, 4⟩], 3⟩ =
      [.error (.plain (.located (.lexical .unterminated) ⟨1, 5⟩)),
        .ok (.assign ⟨2, 1⟩ "y" (.literal ⟨2, 3⟩ (.int 2)) none, 12),
        .error (.plain (.located .statementExpected ⟨2, 6⟩))] := by cbv
  exact (next_restarts ["INT"] 8 hreached 3).trans hfuture

end Parser

end SpanScript
