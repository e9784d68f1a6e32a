import SpanScript.Proofs.Syntax.Lockstep
import SpanScript.Proofs.Syntax.Exact

/-!
# Parsing does not look at places

Every production agrees with itself wherever the same tokens come: the trees that are
read differ in their places only, and so do the faults.

* `agree_expression`, `agree_statement`: expressions and statements at any depth.
* `agree_oneStatement`: the next statement of a text.
* `next_shifted`: a text that stands at another offset, with its tokens at any places.
-/

namespace SpanScript.Reader

variable {ε ε' π ρ σ τ : Type} [TokenSource ε π σ] [TokenSource ε' ρ τ] {f g : Location → Location}
  {L : Lockstep f g σ τ}

/-- The readers read the same expressions, but for their places. -/
abbrev AgreeExpr (L : Lockstep f g σ τ) (m : ReaderOf ε σ Expr) (n : ReaderOf ε' τ Expr) : Prop :=
  ∀ p, Agree L p (Same (Expr.relocate f) (Expr.relocate g)) m n

abbrev AgreeStmt (L : Lockstep f g σ τ) (m : ReaderOf ε σ Stmt) (n : ReaderOf ε' τ Stmt) : Prop :=
  ∀ p, Agree L p (Same (Stmt.relocate f) (Stmt.relocate g)) m n

/-! ## What is made of the parts -/

theorem misplaced?_relocate (f : Location → Location) : ∀ (seen : Bool) (args : List Argument),
    misplaced? seen (args.map (Argument.relocate f))
      = (misplaced? seen args).map (Expr.relocate f) := by
  intro seen args
  induction args generalizing seen with
  | nil => rfl
  | cons a args ih =>
    cases a with
    | positional e =>
      rw [List.map_cons, Argument.relocate, misplaced?, misplaced?]
      split
      · rfl
      · exact ih seen
    | keyword x e =>
      rw [List.map_cons, Argument.relocate, misplaced?, misplaced?]
      exact ih true

theorem undefaulted?_relocate (f : Location → Location) : ∀ (seen : Bool) (ps : List Param),
    undefaulted? seen (ps.map (Param.relocate f))
      = (undefaulted? seen ps).map (Param.relocate f) := by
  intro seen ps
  induction ps generalizing seen with
  | nil => rfl
  | cons p ps ih =>
    rw [List.map_cons, undefaulted?, undefaulted?, Param.relocate, Option.isSome_map]
    split
    · exact ih true
    · split
      · rfl
      · exact ih seen

/-- An index expression for each pair of brackets. -/
theorem same_indices {e e' : Expr} {xs ys : List (Location × List Expr)}
    (he : Same (Expr.relocate f) (Expr.relocate g) e e')
    (h : List.Forall₂ (fun x y => f x.1 = g y.1 ∧
      List.Forall₂ (Same (Expr.relocate f) (Expr.relocate g)) x.2 y.2) xs ys) :
    Same (Expr.relocate f) (Expr.relocate g)
      (xs.foldl (fun base (loc, indices) => .index loc base indices) e)
      (ys.foldl (fun base (loc, indices) => .index loc base indices) e') := by
  induction h generalizing e e' with
  | nil => exact he
  | cons hxy _ ih =>
    refine ih ?_
    show Expr.relocate f _ = Expr.relocate g _
    rw [Expr.relocate, Expr.relocate, hxy.1, he, forall₂_same_iff.mp hxy.2]

/-! ## Expressions -/

theorem agree_integerLiteral {t : Token} (hfair : L.Fair t) (hk : t.kind = .number) :
    Agree L False Eq (integerLiteral t.text : ReaderOf ε σ Literal)
      (integerLiteral t.text : ReaderOf ε' τ Literal) := by
  unfold integerLiteral
  rcases L.integer hfair hk with ⟨v, hσ, hτ⟩ | ⟨x, y, hσ, hτ, hxy⟩
  · rw [hσ, hτ]
    exact agree_pure rfl
  · rw [hσ, hτ]
    exact agree_throw hxy

section

variable {m : ReaderOf ε σ Expr} {n : ReaderOf ε' τ Expr} (h : AgreeExpr L m n)
include h

theorem agree_parenthesized : AgreeExpr L (parenthesized m) (parenthesized n) := by
  refine fun _ => (agree_expect (by decide)).bind fun _ => (h _).bind fun he => ?_
  exact (agree_expect (by decide)).map fun _ => he

omit h in
theorem agree_keywordComes :
    Agree L False Eq (keywordComes : ReaderOf ε σ Bool) (keywordComes : ReaderOf ε' τ Bool) := by
  simp only [keywordComes, sees, bind_assoc, pure_bind]
  refine agree_peek_bind fun {x y} hxy _ s t hs hx => ?_
  rw [← hxy.kind]
  split
  · next e =>
    have he : x.kind ≠ .eof := by rw [eq_of_beq e]; decide
    refine agreeAt_peekSecond_bind hs hx he fun hyz _ _ hs _ => agree_pure ?_ hs
    rw [hyz.kind]
  · exact agree_pure rfl hs

theorem agree_argument :
    Agree L False (Same (Argument.relocate f) (Argument.relocate g)) (argument m) (argument n) := by
  refine agree_keywordComes.bind fun hb => agree_ite (by rw [hb]) ?_ ?_
  · refine (agree_expect (by decide)).bind fun hx => (agree_expect (by decide)).bind fun _ => ?_
    refine (h _).map fun {e e'} he => ?_
    show Argument.relocate f _ = Argument.relocate g _
    rw [Argument.relocate, Argument.relocate, hx.text, he]
  · refine (h _).map fun {e e'} he => ?_
    show Argument.relocate f _ = Argument.relocate g _
    rw [Argument.relocate, Argument.relocate, he]

theorem agree_callOrName {loc loc' : Location} (hl : f loc = g loc') (x : String) :
    Agree L False (Same (Expr.relocate f) (Expr.relocate g))
      (do
        if ← accept .lparen then
          let args ← commaList .rparen (argument m)
          match misplaced? false args with
          | some e => fail .argumentOrder e.location
          | none => pure (.call loc x args)
        else pure (.name loc x))
      (do
        if ← accept .lparen then
          let args ← commaList .rparen (argument n)
          match misplaced? false args with
          | some e => fail .argumentOrder e.location
          | none => pure (.call loc' x args)
        else pure (.name loc' x)) := by
  refine (agree_accept (by decide)).bind fun hb => agree_ite (by rw [hb]) ?_ (agree_pure ?_)
  · refine (agree_commaList (by decide) (agree_argument h)).bind fun {as bs} hs => ?_
    have hs := forall₂_same_iff.mp hs
    have hm := misplaced?_relocate f false as
    rw [hs, misplaced?_relocate] at hm
    cases ha : misplaced? false as with
    | none =>
      cases hb : misplaced? false bs with
      | none =>
        refine agree_pure ?_
        show Expr.relocate f _ = Expr.relocate g _
        rw [Expr.relocate, Expr.relocate, hl, hs]
      | some e' => simp [ha, hb] at hm
    | some e =>
      cases hb : misplaced? false bs with
      | none => simp [ha, hb] at hm
      | some e' =>
        rw [ha, hb] at hm
        have he := congrArg Expr.location (Option.some.inj hm)
        rw [Expr.location_relocate, Expr.location_relocate] at he
        exact agree_fail he.symm
  · show Expr.relocate f _ = Expr.relocate g _
    rw [Expr.relocate, Expr.relocate, hl]

end

theorem agree_primary {m : Nat → ReaderOf ε σ Expr} {n : Nat → ReaderOf ε' τ Expr}
    (h : ∀ w, AgreeExpr L (m w) (n w)) : AgreeExpr L (primary m) (primary n) := by
  refine fun p => agree_peek_bind fun {t u} htu hfair s s' hs hface => ?_
  obtain ⟨hk, hx, hl⟩ := htu
  have hlit : ∀ v, Same (Expr.relocate f) (Expr.relocate g) (.literal t.location v)
      (.literal u.location v) := fun v => by
    show Expr.relocate f _ = Expr.relocate g _
    rw [Expr.relocate, Expr.relocate, hl]
  have take {k : TokenKind} (he : t.kind = k) (hne : k ≠ .eof) :
      AgreeAt L p (fun t u => t.Alike f g u) take take s s' := agreeAt_take hs hface (he ▸ hne)
  rw [← hk, ← hx]
  split
  · next hk =>
    refine (take hk (by decide)).bind fun _ => (agree_integerLiteral hfair hk).map fun hv => ?_
    rw [hv]
    exact hlit _
  · next hk => exact (take hk (by decide)).bind fun _ => agree_pure (hlit _)
  · next hk => exact (take hk (by decide)).bind fun _ => agree_pure (hlit _)
  · next hk =>
    refine (take hk (by decide)).bind fun _ => ?_
    refine (agree_commaList (by decide) (h _ _)).map fun hs => ?_
    show Expr.relocate f _ = Expr.relocate g _
    rw [Expr.relocate, Expr.relocate, hl, forall₂_same_iff.mp hs]
  · exact agree_parenthesized (h _) _ hs
  · next hk => exact (take hk (by decide)).bind fun _ => agree_callOrName (h _) hl t.text
  · exact agree_fail hl hs

theorem agree_indexGroup {m : ReaderOf ε σ Expr} {n : ReaderOf ε' τ Expr} (h : AgreeExpr L m n) :
    Agree L False (Option.Rel fun x y => f x.1 = g y.1 ∧
        List.Forall₂ (Same (Expr.relocate f) (Expr.relocate g)) x.2 y.2)
      (indexGroup m) (indexGroup n) := by
  refine (agree_sees _).bind fun hb => agree_ite (by rw [hb]) ?_ (agree_pure .none)
  refine (agree_expect (by decide)).bind fun ht => ?_
  exact (agree_commaList (by decide) (h _)).map fun hs => .some ⟨ht.location, hs⟩

/-- **Expressions** are the same wherever they stand. -/
theorem agree_expression : ∀ n extra : Nat, AgreeExpr L (expression n extra)
    (expression n extra) := by
  intro n
  induction n with
  | zero => exact fun _ _ => agree_throw (L.fault rfl)
  | succ n ih =>
    intro extra
    cases extra with
    | zero =>
      refine fun _ => (agree_primary (ih ·) _).bind fun he => ?_
      exact (agree_many (agree_indexGroup (ih _))).map fun hs => same_indices he hs
    | succ extra => exact ih extra

/-! ## The look ahead -/

theorem agreeAt_bracketsThenEquals : ∀ (fuel depth : Nat) {s : σ} {t : τ}
    {a : π} {b : ρ}, L.AreBeside s t a b →
    AgreeAt L False Eq (bracketsThenEquals fuel depth a) (bracketsThenEquals fuel depth b) s t := by
  intro fuel
  induction fuel with
  | zero => exact fun _ _ _ _ _ h => agree_pure rfl h.level
  | succ fuel ih =>
    intro depth s t a b h
    cases depth with
    | zero =>
      rw [bracketsThenEquals, bracketsThenEquals]
      refine agreeAt_look_bind h fun {x y} _ _ _ _ hxy _ _ _ h' hbeside => ?_
      simp only [← hxy.kind]
      split
      · next hk => exact ih _ (hbeside (by rw [hk]; decide))
      · exact agree_pure rfl h'
      · exact agree_pure rfl h'
    | succ depth =>
      rw [bracketsThenEquals, bracketsThenEquals]
      refine agreeAt_look_bind h fun {x y} _ _ _ _ hxy _ _ _ h' hbeside => ?_
      simp only [← hxy.kind]
      split
      · exact agree_pure rfl h'
      · next hk => exact ih _ (hbeside (by rw [hk]; decide))
      · next hk => exact ih _ (hbeside (by rw [hk]; decide))
      · next hne _ _ => exact ih _ (hbeside hne)

theorem agreeAt_cellFollows {s : σ} {t : τ} {x : Token} (hs : L.Level s t) (hx : Facing s x)
    (he : x.kind ≠ .eof) :
    AgreeAt L False Eq (cellFollows : ReaderOf ε σ Bool) (cellFollows : ReaderOf ε' τ Bool)
      s t := by
  show AgreeAt L False Eq (TokenSource.look (TokenSource.here s) >>= fun x =>
      bracketsThenEquals (TokenSource.bound s) 0 x.2) (TokenSource.look (TokenSource.here t) >>=
        fun x => bracketsThenEquals (TokenSource.bound t) 0 x.2) s t
  rw [L.bound hs]
  refine agreeAt_look_bind (L.areBeside_here hs) fun _ _ hy _ _ hbeside => ?_
  obtain rfl := hx.unique ⟨_, _, hy⟩
  exact agreeAt_bracketsThenEquals _ _ (hbeside he)

/-! ## Statements -/

section

variable {m : ReaderOf ε σ Expr} {n : ReaderOf ε' τ Expr} (h : AgreeExpr L m n)
include h

theorem agree_assignment (declared : Option TypeName) :
    AgreeStmt L (assignment m declared) (assignment n declared) := by
  refine fun _ => (agree_expect (by decide)).bind fun hx => ?_
  refine (agree_expect (by decide)).bind fun _ => (h _).map fun he => ?_
  show Stmt.relocate f _ = Stmt.relocate g _
  rw [Stmt.relocate, Stmt.relocate, hx.location, hx.text, he]

theorem agree_declaration (types : List TypeName) :
    AgreeStmt L (declaration types m) (declaration types n) := by
  refine fun _ => (agree_typeName types).bind fun ht => (agree_expect (by decide)).bind fun _ => ?_
  rw [ht]
  exact agree_assignment h _ _

theorem agree_cellAssignment : AgreeStmt L (cellAssignment m) (cellAssignment n) := by
  have hfail : Agree L False (Same (Stmt.relocate f) (Stmt.relocate g))
      (do let t ← peek; fail .bracketExpected t.location : ReaderOf ε σ Stmt)
      (do let t ← peek; fail .bracketExpected t.location : ReaderOf ε' τ Stmt) :=
    agree_peek.bind fun ht => agree_fail ht.location
  refine fun _ => (h _).bind fun {e e'} he => ?_
  cases e with
  | index loc base indices =>
    cases e' with
    | index loc' base' indices' =>
      refine (agree_expect (by decide)).bind fun ht => (h _).map fun hv => ?_
      show Stmt.relocate f _ = Stmt.relocate g _
      rw [Stmt.relocate, Stmt.relocate, ht.location, he, hv]
    | _ => simp [Same, Expr.relocate] at he
  | _ =>
    cases e' with
    | index => simp [Same, Expr.relocate] at he
    | _ => exact hfail

theorem agree_parameter (types : List TypeName) :
    Agree L False (Same (Param.relocate f) (Param.relocate g)) (parameter types m)
      (parameter types n) := by
  refine (agree_typeName types).bind fun ht => (agree_expect (by decide)).bind fun _ => ?_
  refine (agree_expect (by decide)).bind fun hx => (agree_accept (by decide)).bind fun hb => ?_
  refine agree_ite (by rw [hb]) ((h _).map fun {e e'} he => ?_) (agree_pure ?_)
  · show Param.relocate f _ = Param.relocate g _
    have he : e.relocate f = e'.relocate g := he
    simp only [Param.relocate, ht, hx.text, Option.map_some, he]
  · show Param.relocate f _ = Param.relocate g _
    simp only [Param.relocate, ht, hx.text, Option.map_none]

theorem agree_optionalValue :
    Agree L False (Option.Rel (Same (Expr.relocate f) (Expr.relocate g))) (optionalValue m)
      (optionalValue n) := by
  refine (agree_sees _).bind fun hb => agree_ite (by rw [hb]) (agree_pure .none) ?_
  exact (h _).map fun he => .some he

theorem agree_returnStatement : AgreeStmt L (returnStatement m) (returnStatement n) := by
  refine fun _ => (agree_expect (by decide)).bind fun hl => (agree_expect (by decide)).bind
    fun _ => (agree_optionalValue h).bind fun hv => (agree_expect (by decide)).map fun _ => ?_
  show Stmt.relocate f _ = Stmt.relocate g _
  rw [Stmt.relocate, Stmt.relocate, hl.location]
  cases hv with
  | none => rfl
  | some he => rw [Option.map_some, Option.map_some, he]

theorem agree_breakStatement : AgreeStmt L (breakStatement m) (breakStatement n) := by
  refine fun _ => (agree_expect (by decide)).bind fun hl => ?_
  refine (agree_parenthesized h _).map fun he => ?_
  show Stmt.relocate f _ = Stmt.relocate g _
  rw [Stmt.relocate, Stmt.relocate, hl.location, he]

omit h in
theorem agree_continueStatement :
    AgreeStmt L (continueStatement : ReaderOf ε σ Stmt)
      (continueStatement : ReaderOf ε' τ Stmt) := by
  refine fun _ => (agree_expect (by decide)).bind fun hl => ?_
  refine (agree_expect (by decide)).bind fun _ => (agree_expect (by decide)).map fun _ => ?_
  show Stmt.relocate f _ = Stmt.relocate g _
  rw [Stmt.relocate, Stmt.relocate, hl.location]

theorem agree_bareExpression : AgreeStmt L (bareExpression m) (bareExpression n) := by
  refine fun _ => (h _).map fun {e e'} he => ?_
  show Stmt.relocate f _ = Stmt.relocate g _
  rw [Stmt.relocate, Stmt.relocate, he]

section

variable {m' : ReaderOf ε σ Stmt} {n' : ReaderOf ε' τ Stmt} (h' : AgreeStmt L m' n')
include h'

omit h in
theorem agree_blockItem : Agree L False (Option.Rel (Same (Stmt.relocate f) (Stmt.relocate g)))
    (blockItem m') (blockItem n') := by
  refine agree_dropNewlines.bind fun _ => (agree_accept (by decide)).bind fun hb => ?_
  refine agree_ite (by rw [hb]) (agree_pure .none) (agree_peek.bind fun ht => ?_)
  exact agree_ite (by rw [ht.kind]) (agree_fail ht.location) ((h' _).map fun hs => .some hs)

omit h in
theorem agree_block :
    Agree L False (Same (Block.relocate f) (Block.relocate g)) (block m') (block n') := by
  refine agree_peek.bind fun {t u} ht => agree_ite (by rw [ht.kind]) ?_ ?_
  · rw [ht.kind]
    exact agree_fail ht.location
  · refine (agree_expect (by decide)).bind fun hl => ?_
    refine (agree_many (agree_blockItem h')).map fun hs => ?_
    show Block.relocate f _ = Block.relocate g _
    rw [Block.relocate, Block.relocate, hl.location, forall₂_same_iff.mp hs]

theorem agree_definition (types : List TypeName) :
    AgreeStmt L (definition types m m') (definition types n n') := by
  refine fun _ => (agree_expect (by decide)).bind fun hl => ?_
  refine (agree_expect (by decide)).bind fun hx => (agree_expect (by decide)).bind fun _ => ?_
  refine (agree_commaList (by decide) (agree_parameter h types)).bind fun {ps qs} hp => ?_
  have hp := forall₂_same_iff.mp hp
  have hm := undefaulted?_relocate f false ps
  rw [hp, undefaulted?_relocate] at hm
  cases hps : undefaulted? false ps with
  | none =>
    cases hqs : undefaulted? false qs with
    | none =>
      refine (agree_expect (by decide)).bind fun _ => (agree_typeName types).bind fun ht => ?_
      refine (agree_block h').map fun hb => ?_
      show Stmt.relocate f _ = Stmt.relocate g _
      rw [Stmt.relocate, Stmt.relocate, hl.location, hx.text, hp, ht, hb]
    | some q => simp [hps, hqs] at hm
  | some p =>
    cases hqs : undefaulted? false qs with
    | none => simp [hps, hqs] at hm
    | some q =>
      rw [hps, hqs] at hm
      have hpq := congrArg Param.name (Option.some.inj hm)
      have hpq : q.name = p.name := hpq
      simp only [hpq]
      exact agree_fail hx.location

theorem agree_guarded : Agree L False (Same (Branch.relocate f) (Branch.relocate g))
    (guarded m m') (guarded n n') := by
  refine (agree_parenthesized h _).bind fun he => (agree_block h').map fun hb => ?_
  show Branch.relocate f _ = Branch.relocate g _
  rw [Branch.relocate, Branch.relocate, he, hb]

theorem agree_choice : AgreeStmt L (choice m m') (choice n n') := by
  refine fun _ => (agree_expect (by decide)).bind fun hl => ?_
  refine (agree_guarded h h').bind fun {b b'} hb => ?_
  refine (agree_many (agree_after (by decide) (agree_guarded h h'))).bind fun {bs bs'} hbs => ?_
  have hmap : (b :: bs).map (Branch.relocate f) = (b' :: bs').map (Branch.relocate g) :=
    forall₂_same_iff.mp (.cons hb hbs)
  refine (agree_accept (by decide)).bind fun ha => agree_ite (by rw [ha]) ?_ (agree_pure ?_)
  · refine (agree_block h').map fun {c c'} hc => ?_
    have hc : c.relocate f = c'.relocate g := hc
    show Stmt.relocate f _ = Stmt.relocate g _
    rw [Stmt.relocate, Stmt.relocate, hl.location, hmap, hc]
  · show Stmt.relocate f _ = Stmt.relocate g _
    rw [Stmt.relocate, Stmt.relocate, hl.location, hmap]

theorem agree_whileLoop : AgreeStmt L (whileLoop m m') (whileLoop n n') := by
  refine fun _ => (agree_expect (by decide)).bind fun hl => ?_
  refine (agree_parenthesized h _).bind fun he => (agree_block h').map fun hb => ?_
  show Stmt.relocate f _ = Stmt.relocate g _
  rw [Stmt.relocate, Stmt.relocate, hl.location, he, hb]

theorem agree_countLoop : AgreeStmt L (countLoop m m') (countLoop n n') := by
  refine fun _ => (agree_expect (by decide)).bind fun hl => ?_
  refine (agree_expect (by decide)).bind fun _ => (agree_expect (by decide)).bind fun hx => ?_
  refine (agree_expect (by decide)).bind fun _ => (h _).bind fun he => ?_
  refine (agree_expect (by decide)).bind fun _ => (agree_block h').map fun hb => ?_
  show Stmt.relocate f _ = Stmt.relocate g _
  rw [Stmt.relocate, Stmt.relocate, hl.location, hx.text, he, hb]

end

end

theorem agreeAt_named {m : Nat → ReaderOf ε σ Expr} {n : Nat → ReaderOf ε' τ Expr}
    (h : ∀ w, AgreeExpr L (m w) (n w)) (types : List TypeName) {t u : Token}
    (htu : t.text = u.text) (he : t.kind ≠ .eof) (p : Prop) {s : σ} {s' : τ} (hs : L.Level s s')
    (ht : Facing s t) :
    AgreeAt L p (Same (Stmt.relocate f) (Stmt.relocate g)) (named types m t) (named types n u)
      s s' := by
  refine agreeAt_peekSecond_bind hs ht he fun {v w} hvw s s' hs ht => ?_
  rw [← hvw.kind, ← htu]
  split
  · exact agree_declaration (h _) types _ hs
  split
  · exact agree_assignment (h _) _ _ hs
  split
  · refine (agreeAt_cellFollows hs ht he).andThen fun hb => agree_ite (by rw [hb]) ?_ ?_
    · exact agree_cellAssignment (h _) _
    · exact agree_bareExpression (h _) _
  · exact agree_bareExpression (h _) _ hs

/-- **Statements** are the same wherever they stand. -/
theorem agree_statement (types : List TypeName) : ∀ n extra : Nat,
    AgreeStmt L (statement types n extra) (statement types n extra) := by
  intro n
  induction n with
  | zero => exact fun _ _ => agree_throw (L.fault rfl)
  | succ n ih =>
    intro extra
    cases extra with
    | succ extra => exact ih extra
    | zero =>
      have h (w : Nat) : AgreeExpr L (expression n w) (expression n w) := agree_expression n w
      rw [statement, statement]
      refine fun p => agree_peek_bind fun {t u} htu _ s s' hs ht => ?_
      rw [← htu.kind]
      split
      · exact agree_definition (h _) (ih _) types _ hs
      · exact agree_choice (h _) (ih _) _ hs
      · exact agree_whileLoop (h _) (ih _) _ hs
      · exact agree_countLoop (h _) (ih _) _ hs
      · exact agree_returnStatement (h _) _ hs
      · exact agree_breakStatement (h _) _ hs
      · exact agree_continueStatement _ hs
      · next hk => exact agreeAt_named h types htu.text (by rw [hk]; decide) p hs ht
      · exact agree_bareExpression (h _) _ hs

/-- The next statement of a text is the same wherever it stands. -/
theorem agree_oneStatement (types : List TypeName) (nesting : Nat) :
    AgreeStmt L (oneStatement types nesting) (oneStatement types nesting) := by
  refine fun _ => agree_dropNewlines.andThen fun _ => agree_peek.andThen fun ht => ?_
  exact agree_ite (by rw [ht.kind]) (agree_fail ht.location) (agree_statement types nesting 0 _)

/-! ## A text at another offset -/

/-- The cursors have the same bytes before them, `k` bytes apart. -/
structure Shifted (k : Nat) (c d : Cursor) : Prop where
  rest : d.rest = c.rest
  offset : d.offset = c.offset + k

theorem Shifted.move {k : Nat} {c d : Cursor} (h : Shifted k c d) (n : Nat) :
    Shifted k (c.move n) (d.move n) := by
  refine ⟨by rw [Cursor.move, Cursor.move, h.rest], ?_⟩
  show d.offset + n = c.offset + n + k
  rw [h.offset]
  omega

theorem bisimulates_shifted (k : Nat) :
    Cursor.Bisimulates Location.forget Location.forget (Shifted k) where
  token := by
    intro c d c' t h hn
    have hm := h.move (gap c.rest)
    unfold Cursor.next at hn ⊢
    rw [h.rest]
    simp only [hm.rest] at hn ⊢
    cases hl : Lexeme.scan (c.move (gap c.rest)).rest with
    | error e => simp [hl] at hn
    | ok l =>
      simp only [hl, Except.ok.injEq, Prod.mk.injEq] at hn
      obtain ⟨rfl, rfl⟩ := hn
      exact ⟨_, _, rfl, ⟨rfl, rfl, rfl⟩, hm.move l.length⟩
  fault := by
    intro c d x h hn
    have hm := h.move (gap c.rest)
    unfold Cursor.next at hn ⊢
    rw [h.rest]
    simp only [hm.rest] at hn ⊢
    cases hl : Lexeme.scan (c.move (gap c.rest)).rest with
    | error e =>
      simp only [hl, Except.error.injEq] at hn
      subst hn
      exact ⟨_, rfl, rfl, rfl⟩
    | ok l => simp [hl] at hn

/-- **A statement at another offset** is the same statement, but for its places, and
ends at the other offset; a text that is no statement is none there either. -/
theorem next_shifted (types : List TypeName) (nesting : Nat) {k : Nat} {c d : Cursor}
    (h : Shifted k c d) :
    (∃ a s b t, next types nesting (.start c) = (.ok a, s) ∧
      next types nesting (.start d) = (.ok b, t) ∧
      a.relocate Location.forget = b.relocate Location.forget ∧
      t.endOffset = s.endOffset + k) ∨
    ∃ x s y t, next types nesting (.start c) = (.error x, s) ∧
      next types nesting (.start d) = (.error y, t) ∧
      x.relocate Location.forget = y.relocate Location.forget := by
  have hstart : Related (Shifted k) (.start c) (.start d) :=
    ⟨h, rfl, by simp only [ReadState.start, h.rest]⟩
  rcases agree_oneStatement (L := .ofCursors (bisimulates_shifted k)) types nesting True hstart
    with ⟨a, s, b, t, hc, hd, hab, hst, -⟩ | ⟨x, s, y, t, hc, hd, hxy, -⟩
  · refine .inl ⟨a, s, b, t, hc, hd, hab, ?_⟩
    obtain ⟨-, -, -, -, hs, -⟩ := next_sound hc
    obtain ⟨-, -, -, -, ht, -⟩ := next_sound hd
    rw [hs, ht, hst.cursor.offset]
  · exact .inr ⟨x, s, y, t, hc, hd, hxy⟩

end SpanScript.Reader
