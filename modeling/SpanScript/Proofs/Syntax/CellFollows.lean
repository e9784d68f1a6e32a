import SpanScript.Proofs.Syntax.LookAhead
import SpanScript.Proofs.Syntax.Next

/-!
# The look past indices and the expression that is read

An assignment to a cell is told from an expression by a look past the brackets behind a name.
The look counts brackets and nothing else: parentheses, calls and literals inside are all one
to it.  What it looks past is then read by productions that know nothing of the count.  The two
agree because brackets balance in everything that is read as an expression, so that the count
is back at none where the reader stops and goes down to none nowhere inside an index.

* `Looks`: what the look answers, by the tokens alone and without a bound; `looks_cellFollows`:
  it always comes to that answer, and takes nothing.
* `gives_cellFollows_of_expression`: what it answers where an expression can be read.
* `expression_of_cellFollows`: what can be read where it answers yes.
* `cellFollows_agrees`: the three together.
-/

namespace SpanScript.Reader

open Grammar

variable {s s₁ s' : ReadState} {c d : Cursor} {t u : Token} {e : Expr}
  {n extra depth : Nat}

/-! ## The look without a bound -/

/-- What the look answers from a place on with `depth` brackets open.  It goes past tokens as
`openStep` says; at the end of the text it answers no, and where no token can be read it
fails for that reason. -/
inductive Looks : Nat → Cursor → Except ParseFault Bool → Prop
  | broken {depth : Nat} {c : Cursor} {x : LexFault} :
      c.next = .error x → Looks depth c (.error (faultOf x))
  | ended {depth : Nat} {c d : Cursor} {t : Token} :
      c.next = .ok (t, d) → t.kind = .eof → Looks depth c (.ok false)
  | answered {depth : Nat} {c d : Cursor} {t : Token} {b : Bool} :
      c.next = .ok (t, d) → t.kind ≠ .eof → openStep depth t.kind = .error b →
      Looks depth c (.ok b)
  | past {depth k : Nat} {c d : Cursor} {t : Token} {r : Except ParseFault Bool} :
      c.next = .ok (t, d) → t.kind ≠ .eof → openStep depth t.kind = .ok k → Looks k d r →
      Looks depth c r

/-- There is one answer. -/
theorem Looks.unique {r r' : Except ParseFault Bool} (h : Looks depth c r)
    (h' : Looks depth c r') : r = r' := by
  induction h generalizing r' with
  | broken hn =>
    cases h' with
    | broken hn' => rw [hn] at hn'; cases hn'; rfl
    | ended hn' | answered hn' | past hn' => rw [hn] at hn'; cases hn'
  | ended hn ht =>
    cases h' with
    | ended => rfl
    | broken hn' => rw [hn] at hn'; cases hn'
    | answered hn' ht' | past hn' ht' => rw [hn] at hn'; cases hn'; exact absurd ht ht'
  | answered hn ht hb =>
    cases h' with
    | broken hn' => rw [hn] at hn'; cases hn'
    | ended hn' ht' => rw [hn] at hn'; cases hn'; exact absurd ht' ht
    | answered hn' _ hb' => rw [hn] at hn'; cases hn'; rw [hb] at hb'; cases hb'; rfl
    | past hn' _ hk' => rw [hn] at hn'; cases hn'; rw [hb] at hk'; cases hk'
  | past hn ht hk _ ih =>
    cases h' with
    | broken hn' => rw [hn] at hn'; cases hn'
    | ended hn' ht' => rw [hn] at hn'; cases hn'; exact absurd ht' ht
    | answered hn' _ hb => rw [hn] at hn'; cases hn'; rw [hk] at hb; cases hb
    | past hn' _ hk' h' =>
      rw [hn] at hn'
      cases hn'
      rw [hk] at hk'
      cases hk'
      exact ih h'

/-- At the end of the text the look answers no, however many brackets are open. -/
theorem run_brackets_eof (hn : c.next = .ok (t, d)) (ht : t.kind = .eof) (fuel depth : Nat)
    (s : ReadState) : (bracketsThenEquals (fuel + 1) depth c).run.run s =
      (.ok false, { s with reach := max s.reach t.stop }) := by
  cases depth <;>
  · rw [bracketsThenEquals, run_bind, run_look hn]
    dsimp only
    rw [ht]
    rfl

/-- Where no token can be read the look fails. -/
theorem run_brackets_broken {x : LexFault} (hn : c.next = .error x) (fuel depth : Nat)
    (s : ReadState) : ∃ s', Fails (bracketsThenEquals (fuel + 1) depth c) s (faultOf x) s' ∧
      Consumes s [] s' := by
  refine ⟨{ s with reach := max s.reach x.reached }, ?_, .reach _ _⟩
  cases depth <;> exact (look_fails hn s).bind _

/-- The look comes to an answer before its bound, and takes nothing on the way. -/
theorem looks_brackets : ∀ (fuel depth : Nat) (c : Cursor) (s : ReadState), c.rest.length < fuel →
    ∃ r s', (bracketsThenEquals fuel depth c).run.run s = (r, s') ∧ Looks depth c r ∧
      Consumes s [] s' := by
  intro fuel
  induction fuel with
  | zero => exact fun _ _ _ h => absurd h (Nat.not_lt_zero _)
  | succ fuel ih =>
    intro depth c s hc
    cases hn : c.next with
    | error x =>
      obtain ⟨s', hrun, hs'⟩ := run_brackets_broken hn fuel depth s
      exact ⟨_, s', hrun, .broken hn, hs'⟩
    | ok x =>
      obtain ⟨t, d⟩ := x
      by_cases ht : t.kind = .eof
      · exact ⟨_, _, run_brackets_eof hn ht fuel depth s, .ended hn ht, .reach _ _⟩
      · rw [run_brackets_cons hn ht]
        cases hk : openStep depth t.kind with
        | error b => exact ⟨.ok b, _, rfl, .answered hn ht hk, .reach _ _⟩
        | ok k =>
          -- every token that the look goes past takes a byte
          have hd := (Cursor.length_of_next hn).2 ht
          obtain ⟨r, s', hrun, hr, hs'⟩ :=
            ih k d { s with reach := max s.reach t.stop } (by omega)
          exact ⟨r, s', hrun, .past hn ht hk hr, (Consumes.reach s _).trans hs'⟩

/-- **The look ends, and takes nothing**: what it answers is what there is to answer behind the
name. -/
theorem looks_cellFollows (hs : Ready s) (hn : s.cursor.next = .ok (t, d)) :
    ∃ r s', cellFollows.run.run s = (r, s') ∧ Looks 0 d r ∧ Consumes s [] s' := by
  have hd := (Cursor.length_of_next hn).1
  obtain ⟨r, s', hrun, hr, hc⟩ := looks_brackets s.bound 0 d { s with reach := max s.reach t.stop }
    (Nat.lt_of_le_of_lt hd hs)
  refine ⟨r, s', ?_, hr, (Consumes.reach s _).trans hc⟩
  rw [cellFollows_eq, run_bind, run_look hn]
  exact hrun

/-- To look twice is to look once. -/
theorem gives_cellFollows_unique {b b' : Bool} {s₂ : ReadState} (hs : Ready s)
    (hn : s.cursor.next = .ok (t, d)) (h : Gives cellFollows s b s₁) (hc : Consumes s [] s')
    (h' : Gives cellFollows s' b' s₂) : b = b' := by
  obtain ⟨r, _, hrun, hr, -⟩ := looks_cellFollows hs hn
  obtain ⟨r', _, hrun', hr', -⟩ := looks_cellFollows (hc.ready hs) (hc.cursor_eq ▸ hn)
  unfold Gives at h h'
  rw [hrun] at h
  rw [hrun'] at h'
  cases h
  cases h'
  exact Except.ok.inj (hr.unique hr')

/-! ## The expression -/

/-- Behind a name and a bracket an expression is that name with one index or more. -/
theorem exists_groups_of_expression (hs : Ready s) (hn : s.cursor.next = .ok (t, d))
    (ht : t.kind = .ident) (hu : d.Faces u) (hk : u.kind = .lbracket)
    (hg : Gives (expression n extra) s e s') :
    ∃ σ gs v, s.cursor.Reads (t :: σ) s'.cursor ∧ IsIndexGroups IsExpr σ gs ∧ gs ≠ [] ∧
      e = indexed (.name t.location t.text) gs ∧ s'.cursor.Faces v ∧ v.kind ≠ .lbracket := by
  obtain ⟨τ, he, hc, hnext⟩ := (expression_reads_any n extra).parses.sound hs hg
  obtain ⟨v, hv⟩ := exists_faces_of_expression hs hg
  have hbehind : v.kind ≠ .lbracket := fun h => hnext v hv (.inl h)
  obtain ⟨t', σ, rfl, -⟩ := (expression_reads_any n extra).shape he
  obtain ⟨d', hn', -, hr⟩ := hc.reads.exists_next
  rw [hn] at hn'
  cases hn'
  have hhead : ∀ w ∈ σ.head?, w.kind = .lbracket := by
    intro w hw
    cases σ with
    | nil => cases hw
    | cons x σ =>
      cases hw
      rw [hr.faces.unique hu]
      exact hk
  obtain ⟨gs, hgs, rfl⟩ := exists_indices ht hhead (isExpr_iff.mp he)
  refine ⟨σ, gs, v, hc.reads, hgs, ?_, rfl, hv, hbehind⟩
  -- without an index the reader would have stopped before the bracket
  rintro rfl
  cases hgs
  cases hr
  exact hbehind (hv.unique hu ▸ hk)

/-- **What the look answers where an expression can be read**: whether an equals sign comes
behind the expression. -/
theorem gives_cellFollows_of_expression (hs : Ready s) (hn : s.cursor.next = .ok (t, d))
    (ht : t.kind = .ident) (hu : d.Faces u) (hk : u.kind = .lbracket)
    (hg : Gives (expression n extra) s e s') :
    ∃ v s₁, s'.cursor.Faces v ∧ Gives cellFollows s (v.kind == .equals) s₁ := by
  obtain ⟨σ, gs, v, hr, hgs, -, -, hv, hne⟩ := exists_groups_of_expression hs hn ht hu hk hg
  obtain ⟨_, -, hrun⟩ := run_cellFollows balanced_isExpr hs hr hgs hv hne
  exact ⟨v, _, hv, hrun⟩

theorem index_of_indexed {gs : List (Location × List Expr)} (head : Expr) (h : gs ≠ []) :
    ∃ loc base indices, indexed head gs = .index loc base indices := by
  obtain ⟨gs, ⟨loc, indices⟩, rfl⟩ := gs.eq_nil_or_concat.resolve_left h
  exact ⟨loc, indexed head gs, indices, by simp [indexed]⟩

theorem expect_gives {k : TokenKind} (h : s.cursor.Faces t) (hk : t.kind = k) :
    ∃ s', Gives (expect k) s t s' := by
  obtain ⟨s₁, hpeek, hc⟩ := peek_gives h
  obtain ⟨d, hn⟩ := hc.faces h
  refine ⟨{ s₁ with reach := max s₁.reach t.stop, cursor := d, taken := true }, hpeek.bind ?_⟩
  rw [if_pos hk]
  exact take_of_next hn

/-- **What can be read where the look answers yes**: if the target can be read at all, it is
an index, and the equals sign is behind it. -/
theorem expression_of_cellFollows (hs : Ready s) (hn : s.cursor.next = .ok (t, d))
    (ht : t.kind = .ident) (hu : d.Faces u) (hk : u.kind = .lbracket)
    (hyes : Gives cellFollows s true s₁) (n extra : Nat) :
    (∃ f s', Fails (expression n extra) s₁ f s') ∨
    ∃ loc base indices s' v s₂, Gives (expression n extra) s₁ (.index loc base indices) s' ∧
      v.kind = .equals ∧ Gives (expect .equals) s' v s₂ := by
  cases hrun : (expression n extra).run.run s₁ with
  | mk r s' =>
  cases r with
  | error f => exact .inl ⟨f, s', hrun⟩
  | ok e =>
    right
    have c₁ := gives_cellFollows hyes
    have hn₁ : s₁.cursor.next = .ok (t, d) := c₁.cursor_eq ▸ hn
    obtain ⟨σ, gs, v, hr, hgs, hne, rfl, hv, hb⟩ :=
      exists_groups_of_expression (c₁.ready hs) hn₁ ht hu hk hrun
    obtain ⟨loc, base, indices, hindex⟩ := index_of_indexed (.name t.location t.text) hne
    obtain ⟨_, -, hlook⟩ := run_cellFollows balanced_isExpr (c₁.ready hs) hr hgs hv hb
    have hequals : v.kind = .equals :=
      eq_of_beq (gives_cellFollows_unique hs hn hyes c₁ hlook).symm
    obtain ⟨s₂, htaken⟩ := expect_gives hv hequals
    exact ⟨_, _, _, s', v, s₂, hindex ▸ hrun, hequals, htaken⟩

/-- **The look past indices agrees with the reader of expressions.**  Before a name and a
bracket it comes to its answer and takes nothing.  Where an expression can be read it answers
whether an equals sign comes behind that.  Where it answers yes, the target cannot be read, or
it is an index with the equals sign behind it. -/
theorem cellFollows_agrees (hs : Ready s) (hn : s.cursor.next = .ok (t, d)) (ht : t.kind = .ident)
    (hu : d.Faces u) (hk : u.kind = .lbracket) (n extra : Nat) :
    (∃ r s₁, cellFollows.run.run s = (r, s₁) ∧ Looks 0 d r ∧ Consumes s [] s₁) ∧
    (∀ e s', Gives (expression n extra) s e s' →
      ∃ v s₁, s'.cursor.Faces v ∧ Gives cellFollows s (v.kind == .equals) s₁) ∧
    (∀ s₁, Gives cellFollows s true s₁ →
      (∃ f s', Fails (expression n extra) s₁ f s') ∨
      ∃ loc base indices s' v s₂, Gives (expression n extra) s₁ (.index loc base indices) s' ∧
        v.kind = .equals ∧ Gives (expect .equals) s' v s₂) :=
  ⟨looks_cellFollows hs hn, fun _ _ hg => gives_cellFollows_of_expression hs hn ht hu hk hg,
    fun _ hyes => expression_of_cellFollows hs hn ht hu hk hyes n extra⟩

/-- In `a[f(b)][c]=1` the look goes past two indices and answers yes, and takes nothing; then the
target is read and the equals sign behind it. -/
theorem cellFollows_agrees_twice :
    let s := ReadState.start
      (.ofText [97, 91, 102, 40, 98, 41, 93, 91, 99, 93, 61, 49] 0 12 ⟨1, 1⟩)
    ∃ s₁ loc base indices s' v s₂, Gives cellFollows s true s₁ ∧ Consumes s [] s₁ ∧
      Gives (expression 30 0) s₁ (.index loc base indices) s' ∧ v.kind = .equals ∧
      Gives (expect .equals) s' v s₂ := by
  intro s
  obtain ⟨t, d, hn, ht, u, hu, hk⟩ : ∃ t d, s.cursor.next = .ok (t, d) ∧ t.kind = .ident ∧
      ∃ u, d.Faces u ∧ u.kind = .lbracket := ⟨_, _, rfl, rfl, _, ⟨_, rfl⟩, rfl⟩
  obtain ⟨⟨r, s₁, hrun, -, hc⟩, -, hyes⟩ := cellFollows_agrees (ready_start _) hn ht hu hk 30 0
  have hr : (cellFollows.run.run s).1.toOption = some true := by decide +kernel
  have hread : ((expression 30 0).run.run (cellFollows.run.run s).2).1.isOk = true := by
    decide +kernel
  rw [hrun] at hr hread
  cases r with
  | error => cases hr
  | ok b =>
    cases hr
    rcases hyes s₁ hrun with ⟨f, s', hf⟩ | ⟨loc, base, indices, s', v, s₂, h⟩
    · rw [hf] at hread
      cases hread
    · exact ⟨s₁, loc, base, indices, s', v, s₂, hrun, hc, h⟩

end SpanScript.Reader
