import SpanScript.Proofs.Syntax.Statement

/-!
# Properties that every production has

The productions are made of few steps: an answer, a fault, one reader and then another, a
look at the next token, taking it, and repetitions.  A property that these steps keep is
`Compositional`, and it is a property of every production, by one induction over them.

Three things are left to the property.  Arguments and statements that begin with a name
look two tokens ahead or farther, and blocks are where braces are taken.

* `Compositional`: what is asked of a property.  It may be one of a run, or of two runs that
  are compared: the situations that it is about are any type, and all that is known of a
  situation is the place where it stands and the token that comes next there.
* `Compositional.expression`, `Compositional.statement`, `Compositional.oneStatement`: it
  holds of expressions, of statements, and of the next statement of a text.
-/

namespace SpanScript.Reader

open Grammar

/-- A kind of token that is no brace and not the end. -/
def Plain (k : TokenKind) : Prop := k ≠ .lbrace ∧ k ≠ .rbrace ∧ k ≠ .eof

instance (k : TokenKind) : Decidable (Plain k) := inferInstanceAs (Decidable (_ ∧ _ ∧ _))

/-- The steps that readers are made of keep the property `Holds`. -/
structure Compositional {ι π : Type} (place : ι → π) (Faces : π → Token → Prop)
    (Holds : ∀ {α : Type}, Reader α → ι → Prop) : Prop where
  pure {α : Type} (a : α) (i : ι) : Holds (Pure.pure a : Reader α) i
  throw {α : Type} (f : ParseFault) (i : ι) : Holds (MonadExcept.throw f : Reader α) i
  bind {α β : Type} {m : Reader α} {k : α → Reader β} {i : ι} :
    Holds m i → (∀ a j, Holds (k a) j) → Holds (m >>= k) i
  peek {β : Type} {k : Token → Reader β} {i : ι} :
    (∀ t j, place j = place i → Faces (place j) t → Holds (k t) j) → Holds (Reader.peek >>= k) i
  take {t : Token} {i : ι} : Faces (place i) t → Plain t.kind → Holds Reader.take i
  many {α : Type} {step : Reader (Option α)} {i : ι} : Advances step → (∀ j, Holds step j) →
    Holds (Reader.many step) i

/-- What is read of expressions, for whatever reason they fail. -/
theorem expression_reads_any (n w : Nat) :
    ReadsExpr (fun _ _ => True) (expression n w) IsExpr :=
  expression_reads (fun _ => trivial) (fun _ _ => trivial) n w

/-- What is read of statements, for whatever reason they fail. -/
theorem statement_reads_any (types : List TypeName) (n w : Nat) :
    ReadsStmt (fun _ _ => True) (statement types n w) (IsStmt types Joins) :=
  statement_reads (fun _ => trivial) (fun _ _ => trivial) n w

theorem accept_eq (k : TokenKind) : (accept k : Reader Bool) = peek >>= fun t =>
    if t.kind == k then take >>= fun _ => pure true else pure false := by
  simp only [accept, sees, bind_assoc, pure_bind]

theorem keywordComes_eq : (keywordComes : Reader Bool) = peek >>= fun t =>
    if t.kind == .ident then peekSecond >>= fun u => pure (u.kind == .equals) else pure false := by
  simp only [keywordComes, sees, bind_assoc, pure_bind]

namespace Compositional

variable {ι π : Type} {place : ι → π} {Faces : π → Token → Prop}
  {Holds : ∀ {α : Type}, Reader α → ι → Prop} {α β : Type} {i : ι}

/-! ## Steps -/

theorem branch {c : Prop} [Decidable c] {m n : Reader α} (h : Holds m i) (h' : Holds n i) :
    Holds (if c then m else n) i := by
  split
  · exact h
  · exact h'

variable (L : Compositional place Faces @Holds)
include L

theorem map {m : Reader α} (h : Holds m i) (f : α → β) : Holds (m >>= fun a => Pure.pure (f a)) i :=
  L.bind h fun a => L.pure (f a)

theorem fail (problem : SyntaxProblem) (loc : Location) :
    Holds (Reader.fail problem loc : Reader α) i := L.throw _ i

theorem sees (k : TokenKind) : Holds (Reader.sees k) i :=
  L.peek fun _ j _ _ => L.pure _ j

/-- A token is accepted if it may be taken. -/
theorem accept_of {k : TokenKind}
    (h : ∀ {t j}, Faces (place j) t → t.kind = k → Holds Reader.take j) :
    Holds (Reader.accept k) i := by
  rw [accept_eq]
  refine L.peek fun t j _ ht => ?_
  split
  · next hk => exact L.map (h ht (eq_of_beq hk)) _
  · exact L.pure false j

theorem accept {k : TokenKind} (hk : Plain k) : Holds (Reader.accept k) i :=
  L.accept_of fun ht h => L.take ht (h ▸ hk)

theorem expect_of {k : TokenKind}
    (h : ∀ {t j}, Faces (place j) t → t.kind = k → Holds Reader.take j) :
    Holds (Reader.expect k) i := by
  refine L.peek fun t j _ ht => ?_
  split
  · next hk => exact h ht hk
  · exact L.fail _ _

theorem expect {k : TokenKind} (hk : Plain k) : Holds (Reader.expect k) i :=
  L.expect_of fun ht h => L.take ht (h ▸ hk)

theorem after {k : TokenKind} (hk : Plain k) {m : Reader α} (h : ∀ j, Holds m j) :
    Holds (Reader.after k m) i :=
  L.bind (L.accept hk) fun _ j => branch (L.map (h j) _) (L.pure _ j)

theorem commaList {k : TokenKind} (hk : Plain k) {m : Reader α}
    (adv : Advances (Reader.after .comma m)) (h : ∀ j, Holds m j) :
    Holds (Reader.commaList k m) i := by
  refine L.bind (L.accept hk) fun _ j => branch (L.pure _ j) (L.bind (h j) fun a j => ?_)
  refine L.bind (L.many adv fun j => L.after (by decide) h) fun as j => ?_
  exact L.map (L.expect hk) _

theorem dropNewlines : Holds Reader.dropNewlines i := by
  have adv : Advances (Reader.after .newline (Pure.pure ())) := by
    intro s s' a hs h
    rcases gives_after (by decide) h with ⟨hnone, -⟩ | ⟨_, t, s₁, -, -, hc, hp⟩
    · cases hnone
    · obtain ⟨-, rfl⟩ := gives_pure.mp hp
      exact ⟨[t], List.cons_ne_nil _ _, hc⟩
  exact L.map (L.many adv fun j => L.after (by decide) fun j => L.pure () j) _

theorem typeName (types : List TypeName) : Holds (Reader.typeName types) i :=
  L.bind (L.expect (by decide)) fun _ j => branch (L.pure _ j) (L.fail _ _)

/-! ## Expressions -/

theorem integerLiteral (text : String) : Holds (Reader.integerLiteral text) i := by
  unfold Reader.integerLiteral
  split
  · exact L.pure _ i
  · exact L.throw _ i

theorem parenthesized {m : Reader Expr} (h : ∀ j, Holds m j) :
    Holds (Reader.parenthesized m) i :=
  L.bind (L.expect (by decide)) fun _ j => L.bind (h j) fun _ _ => L.map (L.expect (by decide)) _

/-- The look at a name and what is behind it, if the look at two tokens has the property
where a name comes first. -/
theorem keywordComes
    (h : ∀ {t j}, Faces (place j) t → t.kind = .ident → Holds Reader.peekSecond j) :
    Holds Reader.keywordComes i := by
  rw [keywordComes_eq]
  refine L.peek fun t j _ ht => ?_
  split
  · next hk => exact L.map (h ht (eq_of_beq hk)) _
  · exact L.pure _ j

/-- An argument, if the look at a name and what is behind it has the property. -/
theorem argument {m : Reader Expr} (hk : Holds Reader.keywordComes i) (h : ∀ j, Holds m j) :
    Holds (Reader.argument m) i := by
  rw [Reader.argument]
  refine L.bind hk fun _ j => branch ?_ (L.map (h j) _)
  exact L.bind (L.expect (by decide)) fun _ _ => L.bind (L.expect (by decide)) fun _ j =>
    L.map (h j) _

section

variable {P : Token → ParseFault → Prop} {expr : Nat → Reader Expr} {R : Nat → Phrase Expr}
  (hr : ∀ w, ReadsExpr P (expr w) (R w)) (h : ∀ w j, Holds (expr w) j)
include hr h

theorem items {k : TokenKind} (hk : Plain k) (w : Nat) :
    Holds (Reader.commaList k (expr w)) i :=
  L.commaList hk (after_advances (by decide) (hr w).parses) (h w)

theorem primary (ha : ∀ j, Holds (Reader.argument (expr Weight.argument)) j) :
    Holds (Reader.primary expr) i := by
  refine L.peek fun t j _ ht => ?_
  have take {k : TokenKind} (hk : t.kind = k) (hp : Plain k) : Holds Reader.take j :=
    L.take ht (hk ▸ hp)
  split
  · next hk =>
    exact L.bind (take hk (by decide)) fun _ _ => L.map (L.integerLiteral _) _
  · next hk => exact L.map (take hk (by decide)) _
  · next hk => exact L.map (take hk (by decide)) _
  · next hk =>
    exact L.bind (take hk (by decide)) fun _ _ => L.map (L.items hr h (by decide) _) _
  · exact L.parenthesized (h _)
  · next hk =>
    refine L.bind (take hk (by decide)) fun _ _ => L.bind (L.accept (by decide)) fun _ j => ?_
    refine branch ?_ (L.pure _ j)
    have adv : Advances (Reader.after .comma (Reader.argument (expr Weight.argument))) :=
      after_advances (by decide) (argument_parses (hr Weight.argument))
    refine L.bind (L.commaList (by decide) adv ha) fun args j => ?_
    cases misplaced? false args with
    | some e => exact L.fail _ _
    | none => exact L.pure _ j
  · exact L.fail _ _

theorem indexGroup (w : Nat) : Holds (Reader.indexGroup (expr w)) i :=
  L.bind (L.sees _) fun _ j => branch
    (L.bind (L.expect (by decide)) fun _ _ => L.map (L.items hr h (by decide) w) _) (L.pure _ j)

end

/-- **Expressions** have the property. -/
theorem expression
    (ha : ∀ n w, (∀ j, Holds (Reader.expression n w) j) →
      ∀ j, Holds (Reader.argument (Reader.expression n w)) j) :
    ∀ (n extra : Nat) (i : ι), Holds (Reader.expression n extra) i := by
  intro n
  induction n with
  | zero => exact fun _ i => L.throw _ i
  | succ n ih =>
    intro extra i
    cases extra with
    | succ extra => exact ih extra i
    | zero =>
      have hr := expression_reads_any n
      refine L.bind (L.primary hr ih (ha n _ (ih _))) fun head j => ?_
      exact L.map (L.many (indexGroup_advances (hr _)) fun j => L.indexGroup hr ih _) _

/-! ## Statements -/

theorem assignment {m : Reader Expr} (h : ∀ j, Holds m j) (declared : Option TypeName) :
    Holds (Reader.assignment m declared) i :=
  L.bind (L.expect (by decide)) fun _ _ => L.bind (L.expect (by decide)) fun _ j => L.map (h j) _

theorem declaration {m : Reader Expr} (h : ∀ j, Holds m j) (types : List TypeName) :
    Holds (Reader.declaration types m) i :=
  L.bind (L.typeName types) fun _ _ => L.bind (L.expect (by decide)) fun _ _ => L.assignment h _

theorem cellAssignment {m : Reader Expr} (h : ∀ j, Holds m j) :
    Holds (Reader.cellAssignment m) i := by
  refine L.bind (h i) fun e j => ?_
  split
  · exact L.bind (L.expect (by decide)) fun _ j => L.map (h j) _
  · exact L.peek fun _ _ _ _ => L.fail _ _

theorem bareExpression {m : Reader Expr} (h : ∀ j, Holds m j) :
    Holds (Reader.bareExpression m) i := L.map (h i) _

/-- A statement that begins with a name, if the looks behind the name have the property. -/
theorem named {expr : Nat → Reader Expr} (types : List TypeName) (t : Token)
    (hsecond : Holds Reader.peekSecond i) (hcell : ∀ j, Holds Reader.cellFollows j)
    (h : ∀ w j, Holds (expr w) j) : Holds (Reader.named types expr t) i := by
  refine L.bind hsecond fun _ j => ?_
  refine branch (L.declaration (h _) types) (branch (L.assignment (h _) _) ?_)
  refine branch ?_ (L.bareExpression (h _))
  exact L.bind (hcell j) fun _ _ => branch (L.cellAssignment (h _)) (L.bareExpression (h _))

theorem parameter {m : Reader Expr} (h : ∀ j, Holds m j) (types : List TypeName) :
    Holds (Reader.parameter types m) i :=
  L.bind (L.typeName types) fun _ _ => L.bind (L.expect (by decide)) fun _ _ =>
    L.bind (L.expect (by decide)) fun _ _ => L.bind (L.accept (by decide)) fun _ j =>
      branch (L.map (h j) _) (L.pure _ j)

theorem breakStatement {m : Reader Expr} (h : ∀ j, Holds m j) :
    Holds (Reader.breakStatement m) i :=
  L.bind (L.expect (by decide)) fun _ _ => L.map (L.parenthesized h) _

theorem continueStatement : Holds Reader.continueStatement i :=
  L.bind (L.expect (by decide)) fun _ _ => L.bind (L.expect (by decide)) fun _ _ =>
    L.map (L.expect (by decide)) _

theorem returnStatement {m : Reader Expr} (h : ∀ j, Holds m j) :
    Holds (Reader.returnStatement m) i := by
  rw [Reader.returnStatement]
  refine L.bind (L.expect (by decide)) fun _ _ => L.bind (L.expect (by decide)) fun _ j => ?_
  have hvalue : Holds (optionalValue m) j :=
    L.bind (L.sees _) fun _ j => branch (L.pure _ j) (L.map (h j) _)
  exact L.bind hvalue fun _ _ => L.map (L.expect (by decide)) _

/-- A block, if every token may be taken. -/
theorem block {P : Token → ParseFault → Prop} {m : Reader Stmt} {S : Phrase Stmt}
    (htake : ∀ {t j}, Faces (place j) t → t.kind ≠ .eof → Holds Reader.take j)
    (hs : ReadsStmt P m S) (h : ∀ j, Holds m j) : Holds (Reader.block m) i := by
  have brace {k : TokenKind} (hk : k ≠ .eof) : ∀ {t j}, Faces (place j) t → t.kind = k →
      Holds Reader.take j := fun ht hkind => htake ht (hkind ▸ hk)
  have hitem : ∀ j, Holds (blockItem m) j := by
    intro j
    refine L.bind L.dropNewlines fun _ j => L.bind (L.accept_of (brace (by decide))) fun _ j => ?_
    refine branch (L.pure _ j) (L.peek fun _ j _ _ => ?_)
    exact branch (L.fail _ _) (L.map (h j) _)
  refine L.peek fun _ j _ _ => branch (L.fail _ _) ?_
  refine L.bind (L.expect_of (brace (by decide))) fun _ j => ?_
  exact L.map (L.many (blockItem_advances hs) hitem) _

section

variable {P : Token → ParseFault → Prop} {e : Reader Expr} {E : Phrase Expr} {m : Reader Stmt}
  {S : Phrase Stmt} (hr : ReadsExpr P e E) (he : ∀ j, Holds e j) (hs : ReadsStmt P m S)
  (hb : ∀ j, Holds (Reader.block m) j)
include he hb

theorem guarded : Holds (Reader.guarded e m) i :=
  L.bind (L.parenthesized he) fun _ j => L.map (hb j) _

theorem whileLoop : Holds (Reader.whileLoop e m) i :=
  L.bind (L.expect (by decide)) fun _ _ => L.bind (L.parenthesized he) fun _ j => L.map (hb j) _

theorem countLoop : Holds (Reader.countLoop e m) i :=
  L.bind (L.expect (by decide)) fun _ _ => L.bind (L.expect (by decide)) fun _ _ =>
    L.bind (L.expect (by decide)) fun _ _ => L.bind (L.expect (by decide)) fun _ j =>
      L.bind (he j) fun _ _ => L.bind (L.expect (by decide)) fun _ j => L.map (hb j) _

include hr

theorem definition (types : List TypeName) : Holds (Reader.definition types e m) i := by
  have adv : Advances (Reader.after .comma (Reader.parameter types e)) :=
    after_advances (by decide) (parameter_parses hr)
  refine L.bind (L.expect (by decide)) fun _ _ => L.bind (L.expect (by decide)) fun _ _ => ?_
  refine L.bind (L.expect (by decide)) fun _ _ => ?_
  refine L.bind (L.commaList (by decide) adv fun j => L.parameter he types) fun params j => ?_
  cases undefaulted? false params with
  | some p => exact L.fail _ _
  | none =>
    exact L.bind (L.expect (by decide)) fun _ _ => L.bind (L.typeName types) fun _ j =>
      L.map (hb j) _

include hs

theorem choice : Holds (Reader.choice e m) i := by
  have adv : Advances (Reader.after (.keyword .elseifWord) (Reader.guarded e m)) :=
    after_advances (by decide) (guarded_parses hr hs)
  refine L.bind (L.expect (by decide)) fun _ _ => L.bind (L.guarded he hb) fun _ _ => ?_
  refine L.bind (L.many adv fun j => L.after (by decide) fun j => L.guarded he hb) fun _ _ => ?_
  exact L.bind (L.accept (by decide)) fun _ j => branch (L.map (hb j) _) (L.pure _ j)

end

/-- A statement, by its first token. -/
theorem statement_succ {types : List TypeName} {n : Nat}
    (he : ∀ w j, Holds (Reader.expression n w) j)
    (hn : ∀ t j, place j = place i → Faces (place j) t → t.kind = .ident →
      Holds (Reader.named types (Reader.expression n) t) j)
    (hb : ∀ j, Holds (Reader.block (Reader.statement types n Weight.block)) j) :
    Holds (Reader.statement types (n + 1) 0) i := by
  have hr := expression_reads_any n
  have hs := statement_reads_any types n Weight.block
  rw [Reader.statement]
  refine L.peek fun t j hj ht => ?_
  split
  · exact L.definition (hr _) (he _) hb types
  · exact L.choice (hr _) (he _) hs hb
  · exact L.whileLoop (he _) hb
  · exact L.countLoop (he _) hb
  · exact L.returnStatement (he _)
  · exact L.breakStatement (he _)
  · exact L.continueStatement
  · next hk => exact hn t j hj ht hk
  · exact L.bareExpression (he _)

/-- **Statements** have the property, if those that begin with a name and blocks have it. -/
theorem statement (types : List TypeName)
    (he : ∀ n w j, Holds (Reader.expression n w) j)
    (hn : ∀ n t j, Faces (place j) t → t.kind = .ident →
      Holds (Reader.named types (Reader.expression n) t) j)
    (hb : ∀ n, (∀ j, Holds (Reader.statement types n Weight.block) j) →
      ∀ j, Holds (Reader.block (Reader.statement types n Weight.block)) j) :
    ∀ (n extra : Nat) (i : ι), Holds (Reader.statement types n extra) i := by
  intro n
  induction n with
  | zero => exact fun _ i => L.throw _ i
  | succ n ih =>
    intro extra i
    cases extra with
    | succ extra => exact ih extra i
    | zero =>
      exact L.statement_succ (he n) (fun t j _ ht hk => hn n t j ht hk) (hb n (ih Weight.block))

/-- The next statement of a text has the property, if statements have it. -/
theorem oneStatement {types : List TypeName} {nesting : Nat}
    (h : ∀ j, Holds (Reader.statement types nesting 0) j) :
    Holds (Reader.oneStatement types nesting) i :=
  L.bind L.dropNewlines fun _ _ => L.peek fun _ j _ _ => branch (L.fail _ _) (h j)

end Compositional

end SpanScript.Reader
