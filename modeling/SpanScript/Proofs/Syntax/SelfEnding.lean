import SpanScript.Proofs.Syntax.LookAhead
import SpanScript.Proofs.Syntax.Next
import SpanScript.Proofs.Syntax.Sharing

/-!
# Statements that end themselves

Some statements are over with their last token: a loop and a definition with the brace of
their block, a return, a break and a continue with their parenthesis, a choice with the brace
of its last branch.  Of the others it is told by the token behind them that they are over,
for an expression may go on and a choice may have one branch more.

So a statement that ends itself is read whatever stands behind it.  One that does not needs a
token there: before bytes that begin none, it is the reading that fails.

* `exists_faces_of_oneStatement`: behind any other statement a token has been read.
* `next_of_endsItself`: a statement that ends itself, before anything.
* `next_of_broken`: any other one, before what is no token.
-/

namespace SpanScript.Reader

open Grammar

variable {α β : Type} {types : List TypeName} {nesting n extra : Nat} {s s' : ReadState}
  {a stmt : Stmt} {c c' d d' : Cursor} {τ : List Token}

/-! ## What a reader may give -/

/-- Every answer of a reader is such as `Q` says. -/
def Always (m : Reader α) (Q : α → Prop) : Prop := ∀ s a s', Gives m s a s' → Q a

namespace Always

variable {Q : β → Prop}

theorem pure {b : β} (h : Q b) : Always (Pure.pure b) Q := by
  intro s a s' hg
  obtain ⟨rfl, -⟩ := gives_pure.mp hg
  exact h

theorem bind {m : Reader α} {k : α → Reader β} (h : ∀ a, Always (k a) Q) :
    Always (m >>= k) Q := by
  intro s b s' hg
  obtain ⟨a, s₁, -, h2⟩ := gives_bind.mp hg
  exact h a s₁ b s' h2

end Always

section

variable {e : Reader Expr} {m : Reader Stmt}

theorem always_definition : Always (definition types e m) (endsItself · = true) := by
  refine .bind fun _ => .bind fun _ => .bind fun _ => .bind fun params => ?_
  cases undefaulted? false params with
  | some p => exact fun _ _ _ hg => absurd hg not_gives_fail
  | none => exact .bind fun _ => .bind fun _ => .bind fun _ => .pure rfl

theorem always_whileLoop : Always (whileLoop e m) (endsItself · = true) :=
  .bind fun _ => .bind fun _ => .bind fun _ => .pure rfl

theorem always_countLoop : Always (countLoop e m) (endsItself · = true) :=
  .bind fun _ => .bind fun _ => .bind fun _ => .bind fun _ => .bind fun _ => .bind fun _ =>
    .bind fun _ => .pure rfl

theorem always_returnStatement : Always (returnStatement e) (endsItself · = true) := by
  rw [returnStatement]
  exact .bind fun _ => .bind fun _ => .bind fun _ => .bind fun _ => .pure rfl

theorem always_breakStatement : Always (breakStatement e) (endsItself · = true) :=
  .bind fun _ => .bind fun _ => .pure rfl

theorem always_continueStatement : Always continueStatement (endsItself · = true) :=
  .bind fun _ => .bind fun _ => .bind fun _ => .pure rfl

end

/-! ## The token behind a statement -/

/-- Behind a statement that does not end itself a token can be read. -/
def FacesBehind (m : Reader Stmt) : Prop :=
  ∀ {s s' : ReadState} {a : Stmt}, Ready s → Gives m s a s' → endsItself a = false →
    ∃ u, s'.cursor.Faces u

theorem Always.facesBehind {m : Reader Stmt} (h : Always m (endsItself · = true)) :
    FacesBehind m := fun _ hg ha => absurd (ha.symm.trans (h _ _ _ hg)) Bool.false_ne_true

theorem facesBehind_assignment (w : Nat) (declared : Option TypeName) :
    FacesBehind (assignment (expression n w) declared) := by
  intro s s' a hs hg _
  obtain ⟨_, s₁, h1, hg⟩ := gives_bind.mp hg
  obtain ⟨-, c₁⟩ := gives_expect (by decide) h1
  obtain ⟨_, s₂, h2, hg⟩ := gives_bind.mp hg
  obtain ⟨-, c₂⟩ := gives_expect (by decide) h2
  obtain ⟨e, s₃, h3, hg⟩ := gives_bind.mp hg
  obtain ⟨-, rfl⟩ := gives_pure.mp hg
  exact exists_faces_of_expression (c₂.ready (c₁.ready hs)) h3

theorem facesBehind_declaration (w : Nat) :
    FacesBehind (declaration types (expression n w)) := by
  intro s s' a hs hg ha
  obtain ⟨_, s₁, h1, hg⟩ := gives_bind.mp hg
  obtain ⟨_, -, -, -, c₁⟩ := gives_typeName h1
  obtain ⟨_, s₂, h2, hg⟩ := gives_bind.mp hg
  obtain ⟨-, c₂⟩ := gives_expect (by decide) h2
  exact facesBehind_assignment w _ (c₂.ready (c₁.ready hs)) hg ha

theorem facesBehind_cellAssignment (w : Nat) : FacesBehind (cellAssignment (expression n w)) := by
  intro s s' a hs hg _
  obtain ⟨e, s₁, h1, hg⟩ := gives_bind.mp hg
  obtain ⟨_, -, c₁, -⟩ := (expression_reads_any n w).parses.sound hs h1
  split at hg
  · obtain ⟨_, s₂, h2, hg⟩ := gives_bind.mp hg
    obtain ⟨-, c₂⟩ := gives_expect (by decide) h2
    obtain ⟨v, s₃, h3, hg⟩ := gives_bind.mp hg
    obtain ⟨-, rfl⟩ := gives_pure.mp hg
    exact exists_faces_of_expression (c₂.ready (c₁.ready hs)) h3
  · obtain ⟨_, s₂, -, hg⟩ := gives_bind.mp hg
    exact absurd hg not_gives_fail

theorem facesBehind_bareExpression (w : Nat) : FacesBehind (bareExpression (expression n w)) := by
  intro s s' a hs hg _
  obtain ⟨e, s₁, h1, hg⟩ := gives_bind.mp hg
  obtain ⟨-, rfl⟩ := gives_pure.mp hg
  exact exists_faces_of_expression hs h1

theorem facesBehind_named (t : Token) : FacesBehind (named types (expression n) t) := by
  intro s s' a hs hg ha
  obtain ⟨_, s₁, h1, hg⟩ := gives_bind.mp hg
  have hs₁ := (gives_peekSecond h1).1.ready hs
  split at hg
  · exact facesBehind_declaration _ hs₁ hg ha
  · split at hg
    · exact facesBehind_assignment _ _ hs₁ hg ha
    · split at hg
      · obtain ⟨cell, s₂, h2, hg⟩ := gives_bind.mp hg
        have hs₂ := (gives_cellFollows h2).ready hs₁
        split at hg
        · exact facesBehind_cellAssignment _ hs₂ hg ha
        · exact facesBehind_bareExpression _ hs₂ hg ha
      · exact facesBehind_bareExpression _ hs₁ hg ha

/-- A choice without a last branch is over where no such branch begins. -/
theorem facesBehind_choice {e : Reader Expr} {m : Reader Stmt} : FacesBehind (choice e m) := by
  intro s s' a _ hg ha
  obtain ⟨_, s₁, -, hg⟩ := gives_bind.mp hg
  obtain ⟨_, s₂, -, hg⟩ := gives_bind.mp hg
  obtain ⟨_, s₃, -, hg⟩ := gives_bind.mp hg
  obtain ⟨otherwise, s₄, h4, hg⟩ := gives_bind.mp hg
  rcases gives_accept (by decide) h4 with ⟨rfl, -⟩ | ⟨rfl, c₄, u, hu, -⟩
  · rw [if_pos rfl] at hg
    obtain ⟨_, s₅, -, hg⟩ := gives_bind.mp hg
    obtain ⟨rfl, -⟩ := gives_pure.mp hg
    cases ha
  · rw [if_neg Bool.false_ne_true] at hg
    obtain ⟨-, rfl⟩ := gives_pure.mp hg
    exact ⟨u, c₄.faces hu⟩

theorem facesBehind_statement (types : List TypeName) : ∀ (n extra : Nat),
    FacesBehind (statement types n extra) := by
  intro n
  induction n with
  | zero => exact fun _ _ _ _ _ hg => absurd hg not_gives_throw
  | succ n ih =>
    intro extra
    cases extra with
    | succ extra => exact ih extra
    | zero =>
      intro s s' a hs hg ha
      rw [statement] at hg
      obtain ⟨t, s₁, h1, hg⟩ := gives_bind.mp hg
      have hs₁ := (gives_peek h1).2.ready hs
      split at hg
      · exact always_definition.facesBehind hs₁ hg ha
      · exact facesBehind_choice hs₁ hg ha
      · exact always_whileLoop.facesBehind hs₁ hg ha
      · exact always_countLoop.facesBehind hs₁ hg ha
      · exact always_returnStatement.facesBehind hs₁ hg ha
      · exact always_breakStatement.facesBehind hs₁ hg ha
      · exact always_continueStatement.facesBehind hs₁ hg ha
      · exact facesBehind_named t hs₁ hg ha
      · exact facesBehind_bareExpression _ hs₁ hg ha

/-- **Behind a statement that does not end itself a token has been read.** -/
theorem exists_faces_of_oneStatement (hs : Ready s)
    (hg : Gives (oneStatement types nesting) s a s') (ha : endsItself a = false) :
    ∃ u, s'.cursor.Faces u := by
  obtain ⟨_, s₁, h1, hg⟩ := gives_bind.mp hg
  obtain ⟨_, -, c₁, -⟩ := (dropNewlines_parses (P := fun _ _ => True)).sound hs h1
  obtain ⟨t, s₂, h2, hg⟩ := gives_bind.mp hg
  have hs₂ := (gives_peek h2).2.ready (c₁.ready hs)
  split at hg
  · exact absurd hg not_gives_fail
  · exact facesBehind_statement types nesting 0 hs₂ hg ha

/-! ## The same statement before something else -/

/-- **A statement that ends itself** is read wherever its tokens come, whatever stands behind
them. -/
theorem next_of_endsItself {r : ReadState} (h : next types nesting (.start c) = (.ok stmt, r))
    (ha : endsItself stmt = true) (hc : c.Reads τ r.cursor) (hc' : c'.Reads τ d') :
    ∃ r', next types nesting (.start c') = (.ok stmt, r') ∧ r'.cursor = d' := by
  have hfit : ∀ {text}, FitsDigits text → FitsDigits text := id
  have hm : ∀ n extra, ReadsStmt (fun _ _ => False) (statement types n extra)
      (StmtWithin types FitsDigits n extra) := statement_reads_within hfit fun _ => .inl
  obtain ⟨ν, ρ, hν, hS, hcons, -⟩ := gives_oneStatement (hm nesting 0) (ready_start c) h
  obtain rfl := hc.tokens_unique hcons.reads
  cases nesting with
  | zero => exact hS.elim
  | succ n =>
    have hstatement : ∀ s, At s ρ d' →
        Arrives (fun _ _ => False) (statement types (n + 1) 0) s ρ stmt := fun s h' =>
      statement_complete (readsExprs_within hfit (fun _ => .inl) n) (hm n Weight.block) h' hS
        (.inl ha)
    have hat : At (.start c') (ν ++ ρ) d' := ⟨ready_start _, hc'⟩
    rcases Arrives.oneStatement hat hν ((hm _ 0).shape _ _ hS) hstatement with
      ⟨r', h1, hc₁⟩ | ⟨_, _, _, _, _, hfalse⟩
    · exact ⟨r', h1, (hc'.unique hc₁.reads).symm⟩
    · exact hfalse.elim

/-- **A statement that does not end itself** is not read where its tokens come before bytes
that begin no token: it is these that are reported. -/
theorem next_of_broken {r : ReadState} {x : LexFault}
    (h : next types nesting (.start c) = (.ok stmt, r)) (ha : endsItself stmt = false)
    (hc : c.Reads τ r.cursor) (hc' : c'.Reads τ d') (ho : c'.offset = c.offset)
    (hx : d'.next = .error x) :
    ∃ r', next types nesting (.start c') = (.error (faultOf x), r') := by
  have hst : Sharing x false (.start c) (.start c') :=
    ⟨⟨ho, τ, r.cursor, d', hc, hc', .broken hx, fun h => nomatch h⟩, ready_start c, ready_start c'⟩
  have hg : Gives (oneStatement types nesting) (.start c) stmt r := h
  cases along_oneStatement types nesting hst with
  | breaks _ hf => exact ⟨_, hf⟩
  | fails hf => exact nomatch hf.symm.trans hg
  | @gives a s₁ t₁ h1 h1' hst₁ =>
    cases hg.symm.trans h1
    -- the second text would be read up to the same place, where no token can be read
    obtain ⟨u, hu⟩ := exists_faces_of_oneStatement (ready_start c') h1' ha
    obtain ⟨_, _, _, _, hcons, -⟩ :=
      gives_oneStatement (statement_reads_any types nesting 0) (ready_start c') h1'
    have hoffset : t₁.cursor.offset = d'.offset := by
      rw [hst₁.shared.offset, hc.offset_eq hc' ho]
    rw [hcons.reads.eq_of_offset hc' hoffset] at hu
    obtain ⟨_, hn⟩ := hu
    rw [hx] at hn
    cases hn

end SpanScript.Reader
