import SpanScript.Proofs.Syntax.Block

/-!
# Statements are read as the grammar has them

The productions of statements, one by one, each over any readers of its expressions
and of the statements in its blocks.

* `statement_production`: what is read is a statement, and each statement is read.
* `statement_reads`: `statement types n extra` reads the statements of the grammar,
  as deep as they may nest, or says that they nest too deeply.
* `statement_reads_within`: it reads all that nest no deeper than `n` levels.
-/

namespace SpanScript.Reader

open Grammar

variable {P : Token → ParseFault → Prop} {fits : String → Prop} {types : List TypeName}
  {expr : Nat → Reader Expr} {R : Nat → Phrase Expr} {m : Reader Stmt} {S : Phrase Stmt}

/-- What a reader gives is a statement, and no token comes next that goes on with
it. -/
def GivesStmt (types : List TypeName) (R : Nat → Phrase Expr) (S : Phrase Stmt)
    (m : Reader Stmt) : Prop :=
  ∀ {s s' : ReadState} {a : Stmt}, Ready s → Gives m s a s' →
    ∃ τ, IsStatement types Joins R S τ a ∧ Consumes s τ s' ∧
      ∀ t, s'.cursor.Faces t → ¬ Joins τ t.kind

/-! ## What is read is a statement -/

theorem assignment_gives (he : ReadsExpr P (expr Weight.operand) (R Weight.operand)) :
    GivesStmt types R S (assignment (expr Weight.operand) none) := by
  intro s s' a hs h
  obtain ⟨name, s₁, h1, h⟩ := gives_bind.mp h
  obtain ⟨hname, c₁⟩ := gives_expect (by decide) h1
  obtain ⟨equals, s₂, h2, h⟩ := gives_bind.mp h
  obtain ⟨hequals, c₂⟩ := gives_expect (by decide) h2
  obtain ⟨e, s₃, h3, h⟩ := gives_bind.mp h
  obtain ⟨τ, hR, c₃, hn⟩ := he.parses.sound (c₂.ready (c₁.ready hs)) h3
  obtain ⟨rfl, rfl⟩ := gives_pure.mp h
  refine ⟨_, .assignment hname hequals hR, c₁.trans (c₂.trans c₃), fun t ht hj => hn t ht ?_⟩
  exact (extends_append (τ := [name, equals]) (he.shape hR).ne_nil).mp hj.1

theorem declaration_gives (he : ReadsExpr P (expr Weight.declared) (R Weight.declared)) :
    GivesStmt types R S (declaration types (expr Weight.declared)) := by
  intro s s' a hs h
  obtain ⟨_, s₁, h1, h⟩ := gives_bind.mp h
  obtain ⟨type, htype, hmem, rfl, c₁⟩ := gives_typeName h1
  obtain ⟨colon, s₂, h2, h⟩ := gives_bind.mp h
  obtain ⟨hcolon, c₂⟩ := gives_expect (by decide) h2
  obtain ⟨name, s₃, h3, h⟩ := gives_bind.mp h
  obtain ⟨hname, c₃⟩ := gives_expect (by decide) h3
  obtain ⟨equals, s₄, h4, h⟩ := gives_bind.mp h
  obtain ⟨hequals, c₄⟩ := gives_expect (by decide) h4
  obtain ⟨e, s₅, h5, h⟩ := gives_bind.mp h
  obtain ⟨τ, hR, c₅, hn⟩ :=
    he.parses.sound (c₄.ready (c₃.ready (c₂.ready (c₁.ready hs)))) h5
  obtain ⟨rfl, rfl⟩ := gives_pure.mp h
  refine ⟨_, .declaration htype hmem hcolon hname hequals hR,
    c₁.trans (c₂.trans (c₃.trans (c₄.trans c₅))), fun t ht hj => hn t ht ?_⟩
  exact (extends_append (τ := [type, colon, name, equals]) (he.shape hR).ne_nil).mp hj.1

theorem bareExpression_gives (he : ReadsExpr P (expr 0) (R 0)) :
    GivesStmt types R S (bareExpression (expr 0)) := by
  intro s s' a hs h
  obtain ⟨e, s₁, h1, h⟩ := gives_bind.mp h
  obtain ⟨τ, hR, c₁, hn⟩ := he.parses.sound hs h1
  obtain ⟨rfl, rfl⟩ := gives_pure.mp h
  exact ⟨τ, .evaluate hR, c₁, fun t ht hj => hn t ht hj.1⟩

/-- Indices make an index expression, if there are any. -/
theorem exists_index (head : Expr) (g : Location × List Expr) (gs : List (Location × List Expr)) :
    ∃ loc base indices, indexed head (g :: gs) = .index loc base indices := by
  induction gs generalizing head g with
  | nil => exact ⟨_, _, _, rfl⟩
  | cons g' gs ih => exact ih (.index g.1 head g.2) g'

theorem cellAssignment_gives (he : ReadsExprs P expr R) {s s' : ReadState} {a : Stmt} {t u : Token}
    {d : Cursor} (hn : s.cursor.next = .ok (t, d)) (ht : t.kind = .ident) (hu : d.Faces u)
    (huk : u.kind = .lbracket) (hs : Ready s)
    (h : Gives (cellAssignment (expr Weight.operand)) s a s') :
    ∃ τ, IsStatement types Joins R S τ a ∧ Consumes s τ s' ∧
      ∀ t, s'.cursor.Faces t → ¬ Joins τ t.kind := by
  obtain ⟨e, s₁, h1, h⟩ := gives_bind.mp h
  obtain ⟨τ, hR, c₁, -⟩ := (he.reads _).parses.sound hs h1
  split at h
  · obtain ⟨equals, s₂, h2, h⟩ := gives_bind.mp h
    obtain ⟨hequals, c₂⟩ := gives_expect (by decide) h2
    obtain ⟨v, s₃, h3, h⟩ := gives_bind.mp h
    obtain ⟨σ, hR', c₃, hn'⟩ := (he.reads _).parses.sound (c₂.ready (c₁.ready hs)) h3
    obtain ⟨rfl, rfl⟩ := gives_pure.mp h
    -- the target begins with the name and the bracket that were seen
    obtain ⟨t', τ', rfl, -⟩ := (he.reads _).shape hR
    obtain ⟨d', hd', -, hr⟩ := c₁.reads.exists_next
    rw [hn] at hd'
    cases hd'
    have hhead : ∀ v ∈ τ'.head?, v.kind = .lbracket := by
      intro v hv
      cases τ' with
      | nil => cases hv
      | cons w τ' =>
        obtain rfl : w = v := by simpa using hv
        rw [hr.faces.unique hu, huk]
    obtain ⟨gs, hg, hindex⟩ := he.indices_of ht hhead hR
    cases gs with
    | nil => cases hindex
    | cons g gs =>
      rw [hindex]
      refine ⟨t :: (τ' ++ equals :: σ), .cellAssignment ht hg hequals hR', ?_, ?_⟩
      · have := c₁.trans (c₂.trans c₃)
        exact this
      · intro w hw hj
        have hne := ((he.reads _).shape hR').ne_nil
        refine hn' w hw ((extends_append (τ := t :: (τ' ++ [equals])) hne).mp ?_)
        have := hj.1
        simpa using this
  · obtain ⟨_, s₂, h2, h⟩ := gives_bind.mp h
    exact absurd h not_gives_fail

theorem named_gives (he : ReadsExprs P expr R) {s s' : ReadState} {a : Stmt} {t : Token}
    (hf : s.cursor.Faces t) (ht : t.kind = .ident) (hs : Ready s)
    (h : Gives (named types expr t) s a s') :
    ∃ τ, IsStatement types Joins R S τ a ∧ Consumes s τ s' ∧
      ∀ t, s'.cursor.Faces t → ¬ Joins τ t.kind := by
  obtain ⟨u, s₁, h1, h⟩ := gives_bind.mp h
  obtain ⟨c₁, t', d, hn, hu⟩ := gives_peekSecond h1
  obtain rfl := hf.unique ⟨d, hn⟩
  have hlift : ∀ {m : Reader Stmt} {s₂ : ReadState}, Consumes s₁ [] s₂ →
      GivesStmt types R S m → Gives m s₂ a s' →
      ∃ τ, IsStatement types Joins R S τ a ∧ Consumes s τ s' ∧
        ∀ t, s'.cursor.Faces t → ¬ Joins τ t.kind := by
    intro m s₂ c₂ hm hg
    obtain ⟨τ, h2, c₃, h3⟩ := hm (c₂.ready (c₁.ready hs)) hg
    exact ⟨τ, h2, c₁.trans (c₂.trans c₃), h3⟩
  split at h
  · exact hlift (.refl _) (declaration_gives (he.reads _)) h
  · split at h
    · exact hlift (.refl _) (assignment_gives (he.reads _)) h
    · split at h
      · next huk =>
        obtain ⟨b, s₂, h2, h⟩ := gives_bind.mp h
        have c₂ := gives_cellFollows h2
        split at h
        · have hu' : d.Faces u := by
            rcases hu with ⟨hx, -⟩ | ⟨-, hu⟩
            · rw [ht] at hx; cases hx
            · exact hu
          have hn' : s₂.cursor.next = .ok (t, d) := by rw [c₂.cursor_eq, c₁.cursor_eq, hn]
          obtain ⟨τ, h3, c₃, h4⟩ :=
            cellAssignment_gives he hn' ht hu' huk (c₂.ready (c₁.ready hs)) h
          exact ⟨τ, h3, c₁.trans (c₂.trans c₃), h4⟩
        · exact hlift c₂ (bareExpression_gives (he.reads _)) h
      · exact hlift (.refl _) (bareExpression_gives (he.reads _)) h

theorem choice_gives (he : ReadsExpr P (expr Weight.test) (R Weight.test)) (hm : ReadsStmt P m S) :
    GivesStmt types R S (choice (expr Weight.test) m) := by
  intro s s' a hs h
  obtain ⟨keyword, s₁, h1, h⟩ := gives_bind.mp h
  obtain ⟨hk, c₁⟩ := gives_expect (by decide) h1
  obtain ⟨first, s₂, h2, h⟩ := gives_bind.mp h
  obtain ⟨τ, hfirst, c₂, -⟩ := (guarded_parses he hm).sound (c₁.ready hs) h2
  obtain ⟨others, s₃, h3, h⟩ := gives_bind.mp h
  obtain ⟨σ, hothers, c₃, -⟩ := (each_parses (by decide) (guarded_parses he hm)
    (fun _ => not_never _ _)).sound (c₂.ready (c₁.ready hs)) h3
  obtain ⟨_, s₄, h4, h⟩ := gives_bind.mp h
  rcases gives_accept (by decide) h4 with ⟨rfl, otherwise, ho, c₄⟩ | ⟨rfl, c₄, -⟩
  · rw [if_pos rfl] at h
    obtain ⟨b, s₅, h5, h⟩ := gives_bind.mp h
    obtain ⟨ρ, hb, c₅, -⟩ :=
      (block_parses hm).sound (c₄.ready (c₃.ready (c₂.ready (c₁.ready hs)))) h5
    obtain ⟨rfl, rfl⟩ := gives_pure.mp h
    exact ⟨_, .choiceElse hk hfirst hothers ho hb,
      c₁.trans (c₂.trans (c₃.trans (c₄.trans c₅))), fun _ _ => not_joins_keyword hk _⟩
  · rw [if_neg Bool.false_ne_true] at h
    obtain ⟨rfl, rfl⟩ := gives_pure.mp h
    have hc := c₁.trans (c₂.trans (c₃.trans c₄))
    rw [List.append_nil] at hc
    exact ⟨_, .choice hk hfirst hothers, hc, fun _ _ => not_joins_keyword hk _⟩

theorem whileLoop_gives (he : ReadsExpr P (expr Weight.test) (R Weight.test))
    (hm : ReadsStmt P m S) : GivesStmt types R S (whileLoop (expr Weight.test) m) := by
  intro s s' a hs h
  obtain ⟨keyword, s₁, h1, h⟩ := gives_bind.mp h
  obtain ⟨hk, c₁⟩ := gives_expect (by decide) h1
  obtain ⟨e, s₂, h2, h⟩ := gives_bind.mp h
  obtain ⟨τ, hR, c₂, -⟩ := (group_parses he).sound (c₁.ready hs) h2
  obtain ⟨b, s₃, h3, h⟩ := gives_bind.mp h
  obtain ⟨σ, hS, c₃, -⟩ := (block_parses hm).sound (c₂.ready (c₁.ready hs)) h3
  obtain ⟨rfl, rfl⟩ := gives_pure.mp h
  exact ⟨_, .whileLoop hk hR hS, c₁.trans (c₂.trans c₃), fun _ _ => not_joins_keyword hk _⟩

theorem countLoop_gives (he : ReadsExpr P (expr Weight.operand) (R Weight.operand))
    (hm : ReadsStmt P m S) : GivesStmt types R S (countLoop (expr Weight.operand) m) := by
  intro s s' a hs h
  obtain ⟨keyword, s₁, h1, h⟩ := gives_bind.mp h
  obtain ⟨hk, c₁⟩ := gives_expect (by decide) h1
  obtain ⟨l, s₂, h2, h⟩ := gives_bind.mp h
  obtain ⟨hl, c₂⟩ := gives_expect (by decide) h2
  obtain ⟨counter, s₃, h3, h⟩ := gives_bind.mp h
  obtain ⟨hcounter, c₃⟩ := gives_expect (by decide) h3
  obtain ⟨comma, s₄, h4, h⟩ := gives_bind.mp h
  obtain ⟨hcomma, c₄⟩ := gives_expect (by decide) h4
  have hs₄ := c₄.ready (c₃.ready (c₂.ready (c₁.ready hs)))
  obtain ⟨e, s₅, h5, h⟩ := gives_bind.mp h
  obtain ⟨τ, hR, c₅, -⟩ := he.parses.sound hs₄ h5
  obtain ⟨r, s₆, h6, h⟩ := gives_bind.mp h
  obtain ⟨hr, c₆⟩ := gives_expect (by decide) h6
  obtain ⟨b, s₇, h7, h⟩ := gives_bind.mp h
  obtain ⟨σ, hS, c₇, -⟩ := (block_parses hm).sound (c₆.ready (c₅.ready hs₄)) h7
  obtain ⟨rfl, rfl⟩ := gives_pure.mp h
  exact ⟨_, .forLoop hk hl hcounter hcomma hR hr hS,
    c₁.trans (c₂.trans (c₃.trans (c₄.trans (c₅.trans (c₆.trans c₇))))),
    fun _ _ => not_joins_keyword hk _⟩

theorem definition_gives (he : ReadsExpr P (expr Weight.default) (R Weight.default))
    (hm : ReadsStmt P m S) : GivesStmt types R S (definition types (expr Weight.default) m) := by
  intro s s' a hs h
  obtain ⟨keyword, s₁, h1, h⟩ := gives_bind.mp h
  obtain ⟨hk, c₁⟩ := gives_expect (by decide) h1
  obtain ⟨name, s₂, h2, h⟩ := gives_bind.mp h
  obtain ⟨hname, c₂⟩ := gives_expect (by decide) h2
  obtain ⟨l, s₃, h3, h⟩ := gives_bind.mp h
  obtain ⟨hl, c₃⟩ := gives_expect (by decide) h3
  have hs₃ := c₃.ready (c₂.ready (c₁.ready hs))
  obtain ⟨params, s₄, h4, h⟩ := gives_bind.mp h
  obtain ⟨τ, hparams, c₄, -⟩ := (parameters_parses he).sound hs₃ h4
  split at h
  · exact absurd h not_gives_fail
  · next hp =>
    obtain ⟨colon, s₅, h5, h⟩ := gives_bind.mp h
    obtain ⟨hcolon, c₅⟩ := gives_expect (by decide) h5
    obtain ⟨_, s₆, h6, h⟩ := gives_bind.mp h
    obtain ⟨type, htype, hmem, rfl, c₆⟩ := gives_typeName h6
    obtain ⟨b, s₇, h7, h⟩ := gives_bind.mp h
    obtain ⟨σ, hS, c₇, -⟩ :=
      (block_parses hm).sound (c₆.ready (c₅.ready (c₄.ready hs₃))) h7
    obtain ⟨rfl, rfl⟩ := gives_pure.mp h
    exact ⟨_, .define hk hname hl hparams (undefaulted?_eq_none.mp hp).2 hcolon htype hmem hS,
      c₁.trans (c₂.trans (c₃.trans (c₄.trans (c₅.trans (c₆.trans c₇))))),
      fun _ _ => not_joins_keyword hk _⟩

theorem returnStatement_gives (he : ReadsExpr P (expr Weight.operand) (R Weight.operand)) :
    GivesStmt types R S (returnStatement (expr Weight.operand)) := by
  intro s s' a hs h
  rw [returnStatement] at h
  obtain ⟨keyword, s₁, h1, h⟩ := gives_bind.mp h
  obtain ⟨hk, c₁⟩ := gives_expect (by decide) h1
  obtain ⟨l, s₂, h2, h⟩ := gives_bind.mp h
  obtain ⟨hl, c₂⟩ := gives_expect (by decide) h2
  obtain ⟨v, s₃, h3, h⟩ := gives_bind.mp h
  obtain ⟨r, s₄, h4, h⟩ := gives_bind.mp h
  obtain ⟨hr, c₄⟩ := gives_expect (by decide) h4
  obtain ⟨rfl, rfl⟩ := gives_pure.mp h
  obtain ⟨_, s₅, h5, h3⟩ := gives_bind.mp h3
  obtain ⟨_, -, -, c₅⟩ := gives_sees h5
  split at h3
  · obtain ⟨rfl, rfl⟩ := gives_pure.mp h3
    exact ⟨_, .returnNothing hk hl hr, c₁.trans (c₂.trans (c₅.trans c₄)),
      fun _ _ => not_joins_keyword hk _⟩
  · obtain ⟨e, s₆, h6, h3⟩ := gives_bind.mp h3
    obtain ⟨rfl, rfl⟩ := gives_pure.mp h3
    obtain ⟨τ, hR, c₆, -⟩ := he.parses.sound (c₅.ready (c₂.ready (c₁.ready hs))) h6
    exact ⟨_, .returnValue hk (.mk hl hR hr),
      c₁.trans (c₂.trans (c₅.trans (c₆.trans c₄))), fun _ _ => not_joins_keyword hk _⟩

theorem breakStatement_gives (he : ReadsExpr P (expr Weight.test) (R Weight.test)) :
    GivesStmt types R S (breakStatement (expr Weight.test)) := by
  intro s s' a hs h
  obtain ⟨keyword, s₁, h1, h⟩ := gives_bind.mp h
  obtain ⟨hk, c₁⟩ := gives_expect (by decide) h1
  obtain ⟨e, s₂, h2, h⟩ := gives_bind.mp h
  obtain ⟨τ, hR, c₂, -⟩ := (group_parses he).sound (c₁.ready hs) h2
  obtain ⟨rfl, rfl⟩ := gives_pure.mp h
  exact ⟨_, .breakLoops hk hR, c₁.trans c₂, fun _ _ => not_joins_keyword hk _⟩

theorem continueStatement_gives : GivesStmt types R S continueStatement := by
  intro s s' a hs h
  obtain ⟨keyword, s₁, h1, h⟩ := gives_bind.mp h
  obtain ⟨hk, c₁⟩ := gives_expect (by decide) h1
  obtain ⟨l, s₂, h2, h⟩ := gives_bind.mp h
  obtain ⟨hl, c₂⟩ := gives_expect (by decide) h2
  obtain ⟨r, s₃, h3, h⟩ := gives_bind.mp h
  obtain ⟨hr, c₃⟩ := gives_expect (by decide) h3
  obtain ⟨rfl, rfl⟩ := gives_pure.mp h
  exact ⟨_, .continueLoop hk hl hr, c₁.trans (c₂.trans c₃), fun _ _ => not_joins_keyword hk _⟩

/-! ## Each statement is read -/

section Complete

variable {s : ReadState} {c : Cursor} {τ σ : List Token}

theorem arrives_assignment {name equals : Token} {e : Expr} {declared : Option TypeName}
    {m : Reader Expr} {Q : Phrase Expr} (hm : ReadsExpr P m Q)
    (h : At s (name :: equals :: τ) c) (hname : name.kind = .ident)
    (hequals : equals.kind = .equals)
    (hR : Q τ e) (hF : ∃ t, c.Faces t ∧ ¬ Extends τ t.kind) :
    Arrives P (assignment m declared) s (name :: equals :: τ)
      (.assign name.location name.text e declared) :=
  .expect_bind h hname fun _ h₁ => .expect_bind h₁ hequals fun _ h₂ =>
    hm.parses.bind_last h₂ hR hF fun _ _ => .pure

theorem arrives_declaration (he : ReadsExpr P (expr Weight.declared) (R Weight.declared))
    {type colon name equals : Token} {e : Expr}
    (h : At s (type :: colon :: name :: equals :: τ) c) (htype : type.kind = .ident)
    (hmem : type.text ∈ types) (hcolon : colon.kind = .colon) (hname : name.kind = .ident)
    (hequals : equals.kind = .equals) (hR : R Weight.declared τ e)
    (hF : ∃ t, c.Faces t ∧ ¬ Extends τ t.kind) :
    Arrives P (declaration types (expr Weight.declared)) s (type :: colon :: name :: equals :: τ)
      (.assign name.location name.text e (some type.text)) :=
  .typeName_bind h htype hmem fun _ h₁ => .expect_bind h₁ hcolon fun _ h₂ =>
    arrives_assignment he h₂ hname hequals hR hF

theorem arrives_choice (he : ReadsExpr P (expr Weight.test) (R Weight.test)) (hm : ReadsStmt P m S)
    {keyword : Token} {first : Branch} {others : List Branch} {ρ : List Token}
    {otherwise : Option Block} (h : At s (keyword :: (τ ++ (σ ++ ρ))) c)
    (hk : keyword.kind = .keyword .ifWord)
    (hfirst : IsGuarded (R Weight.test) (IsBlock Joins S) τ first)
    (hothers : IsEach (.keyword .elseifWord) (IsGuarded (R Weight.test) (IsBlock Joins S)) σ others)
    (hnext : Follow c (· ≠ .keyword .elseifWord) ρ)
    (hrest : (ρ = [] ∧ otherwise = none ∧ ∃ t, c.Faces t ∧ t.kind ≠ .keyword .elseWord) ∨
      ∃ t ρ' b, ρ = t :: ρ' ∧ otherwise = some b ∧ t.kind = .keyword .elseWord ∧
        IsBlock Joins S ρ' b) :
    Arrives P (choice (expr Weight.test) m) s (keyword :: (τ ++ (σ ++ ρ)))
      (.ifElse keyword.location (first :: others) otherwise) := by
  refine .expect_bind h hk fun s₁ h₁ => ?_
  obtain ⟨d, h3, -⟩ := h₁.take
  refine .bind h₁ (arrives_guarded he hm h3 hfirst) fun s₂ h₂ => ?_
  refine (each_parses (by decide) (guarded_parses he hm) (fun _ => not_never _ _)).bind h₂ hothers
    (hnext.mono fun k hk => ?_) fun s₃ h₃ => ?_
  · rintro (hx | ⟨_, hx⟩)
    · exact hk hx
    · exact hx
  rcases hrest with ⟨rfl, rfl, ht⟩ | ⟨t, ρ, b, rfl, rfl, ht, hb⟩
  · exact .accept_bind_false h₃ ht fun _ _ => .pure
  · refine .accept_bind_true h₃ ht fun s₄ h₄ => ?_
    rw [if_pos rfl]
    exact .bind_last h₄ (arrives_block hm h₄ hb) fun _ _ => .pure

theorem arrives_whileLoop (he : ReadsExpr P (expr Weight.test) (R Weight.test))
    (hm : ReadsStmt P m S) {keyword : Token} {e : Expr} {b : Block}
    (h : At s (keyword :: (τ ++ σ)) c) (hk : keyword.kind = .keyword .whileWord)
    (hR : IsParenthesized (R Weight.test) τ e) (hb : IsBlock Joins S σ b) :
    Arrives P (whileLoop (expr Weight.test) m) s (keyword :: (τ ++ σ))
      (.whileLoop keyword.location e b) := by
  refine .expect_bind h hk fun s₁ h₁ => ?_
  obtain ⟨d, h2, -⟩ := h₁.take
  refine .bind h₁ (arrives_group he h2 hR) fun s₂ h₂ => ?_
  exact .bind_last h₂ (arrives_block hm h₂ hb) fun _ _ => .pure

theorem arrives_countLoop (he : ReadsExpr P (expr Weight.operand) (R Weight.operand))
    (hm : ReadsStmt P m S) {keyword l counter comma r : Token} {e : Expr} {b : Block}
    (h : At s (keyword :: l :: counter :: comma :: (τ ++ r :: σ)) c)
    (hk : keyword.kind = .keyword .forWord) (hl : l.kind = .lparen)
    (hcounter : counter.kind = .ident) (hcomma : comma.kind = .comma)
    (hR : R Weight.operand τ e) (hr : r.kind = .rparen) (hb : IsBlock Joins S σ b) :
    Arrives P (countLoop (expr Weight.operand) m) s
      (keyword :: l :: counter :: comma :: (τ ++ r :: σ))
      (.forLoop keyword.location counter.text e b) := by
  refine .expect_bind h hk fun s₁ h₁ => .expect_bind h₁ hl fun s₂ h₂ => ?_
  refine .expect_bind h₂ hcounter fun s₃ h₃ => .expect_bind h₃ hcomma fun s₄ h₄ => ?_
  refine he.parses.bind h₄ hR ?_ fun s₅ h₅ => .expect_bind h₅ hr fun s₆ h₆ => ?_
  · rw [Follow, hr]
    exact not_extends (by decide) (by decide)
  exact .bind_last h₆ (arrives_block hm h₆ hb) fun _ _ => .pure

theorem arrives_definition (he : ReadsExpr P (expr Weight.default) (R Weight.default))
    (hm : ReadsStmt P m S) {keyword name l colon type : Token} {params : List Param} {b : Block}
    (h : At s (keyword :: name :: l :: (τ ++ colon :: type :: σ)) c)
    (hk : keyword.kind = .keyword .funcWord) (hname : name.kind = .ident) (hl : l.kind = .lparen)
    (hparams : IsCommaList .rparen (IsParam types (R Weight.default)) τ params)
    (hp : params.Pairwise fun p q => p.default.isSome → q.default.isSome)
    (hcolon : colon.kind = .colon) (htype : type.kind = .ident) (hmem : type.text ∈ types)
    (hb : IsBlock Joins S σ b) :
    Arrives P (definition types (expr Weight.default) m) s
      (keyword :: name :: l :: (τ ++ colon :: type :: σ))
      (.define keyword.location name.text params type.text b) := by
  refine .expect_bind h hk fun s₁ h₁ => .expect_bind h₁ hname fun s₂ h₂ => ?_
  refine .expect_bind h₂ hl fun s₃ h₃ => ?_
  refine (parameters_parses he).bind h₃ hparams (not_never _ _) fun s₄ h₄ => ?_
  have hnone : undefaulted? false params = none :=
    undefaulted?_eq_none.mpr ⟨fun h => absurd h Bool.false_ne_true, hp⟩
  rw [hnone]
  refine .expect_bind h₄ hcolon fun s₅ h₅ => .typeName_bind h₅ htype hmem fun s₆ h₆ => ?_
  exact .bind_last h₆ (arrives_block hm h₆ hb) fun _ _ => .pure

theorem arrives_returnStatement (he : ReadsExpr P (expr Weight.operand) (R Weight.operand))
    {keyword : Token} {e : Expr} (h : At s (keyword :: τ) c)
    (hk : keyword.kind = .keyword .returnWord) (hR : IsParenthesized (R Weight.operand) τ e) :
    Arrives P (returnStatement (expr Weight.operand)) s (keyword :: τ)
      (.returnValue keyword.location (some e)) := by
  rw [returnStatement]
  refine .expect_bind h hk fun s₁ h₁ => ?_
  cases hR with
  | @mk l r τ e hl hR hr =>
    have hrparen : ¬ Extends τ r.kind := by rw [hr]; exact not_extends (by decide) (by decide)
    refine .expect_bind h₁ hl fun s₂ h₂ => ?_
    obtain ⟨d, h3, h4⟩ := h₂.take
    refine .bind h₂ ?_ fun s₃ h₃ => .expect_bind h₃ hr fun _ _ => .pure
    obtain ⟨t, σ, rfl, ht, -⟩ := he.shape hR
    refine .sees_bind false h3 (p := StartsExpr) ht (fun k hk => ?_) fun s₄ h₄ => ?_
    · have hne : k ≠ .rparen := startsExpr_ne hk (by simp [StartsExpr])
      simpa using hne
    exact he.parses.bind_last h₄ hR ⟨r, h4.faces, hrparen⟩ fun _ _ => .pure

theorem arrives_returnNothing {m : Reader Expr} {keyword l r : Token}
    (h : At s [keyword, l, r] c) (hk : keyword.kind = .keyword .returnWord) (hl : l.kind = .lparen)
    (hr : r.kind = .rparen) :
    Arrives P (returnStatement m) s [keyword, l, r] (.returnValue keyword.location none) := by
  rw [returnStatement]
  refine .expect_bind h hk fun s₁ h₁ => .expect_bind h₁ hl fun s₂ h₂ => ?_
  refine .bind (τ := []) h₂ ?_ fun s₃ h₃ => .expect_bind h₃ hr fun _ _ => .pure
  obtain ⟨d, h3, h4⟩ := At.take (τ := []) h₂
  exact .sees_bind true h3 (p := (· = .rparen)) ⟨r, h4.faces, hr⟩
    (fun k hk => by simpa using hk) fun _ _ => .pure

theorem arrives_breakStatement (he : ReadsExpr P (expr Weight.test) (R Weight.test))
    {keyword : Token} {e : Expr} (h : At s (keyword :: τ) c)
    (hk : keyword.kind = .keyword .breakWord) (hR : IsParenthesized (R Weight.test) τ e) :
    Arrives P (breakStatement (expr Weight.test)) s (keyword :: τ)
      (.breakLoops keyword.location e) :=
  .expect_bind h hk fun _ h₁ => .bind_last h₁ (arrives_group he h₁ hR) fun _ _ => .pure

theorem arrives_continueStatement {keyword l r : Token} (h : At s [keyword, l, r] c)
    (hk : keyword.kind = .keyword .continueWord) (hl : l.kind = .lparen) (hr : r.kind = .rparen) :
    Arrives P continueStatement s [keyword, l, r] (.continueLoop keyword.location) :=
  .expect_bind h hk fun _ h₁ => .expect_bind h₁ hl fun _ h₂ =>
    .expect_bind h₂ hr fun _ _ => .pure

theorem arrives_cellAssignment (he : ReadsExprs P expr R) {name equals : Token}
    {g : Location × List Expr} {gs : List (Location × List Expr)} {e : Expr}
    (h : At s (name :: (τ ++ equals :: σ)) c) (hname : name.kind = .ident)
    (hg : IsIndexGroups (R (Weight.operand + 1 + Weight.index)) τ (g :: gs))
    (hequals : equals.kind = .equals) (hR : R Weight.operand σ e)
    (hF : ∃ t, c.Faces t ∧ ¬ Extends σ t.kind) :
    Arrives P (cellAssignment (expr Weight.operand)) s (name :: (τ ++ equals :: σ))
      (.assignCell equals.location (indexed (.name name.location name.text) (g :: gs)) e) := by
  have htarget := he.of_indices hR hname hg
  obtain ⟨loc, base, indices, hindex⟩ :=
    exists_index (.name name.location name.text) g gs
  rw [hindex] at htarget ⊢
  refine (he.reads _).parses.bind (τ := name :: τ) h htarget ?_ fun s₁ h₁ => ?_
  · rw [Follow, hequals]
    exact not_extends (by decide) (by decide)
  refine .expect_bind h₁ hequals fun s₂ h₂ => ?_
  exact (he.reads _).parses.bind_last h₂ hR hF fun _ _ => .pure

/-! The token behind a first name tells the statements that begin with one apart. -/

theorem arrives_named_declaration (he : ReadsExprs P expr R) {type colon name equals : Token}
    {e : Expr} (h : At s (type :: colon :: name :: equals :: τ) c) (htype : type.kind = .ident)
    (hmem : type.text ∈ types) (hcolon : colon.kind = .colon) (hname : name.kind = .ident)
    (hequals : equals.kind = .equals) (hR : R Weight.declared τ e)
    (hF : ∃ t, c.Faces t ∧ ¬ Extends τ t.kind) :
    Arrives P (named types expr type) s (type :: colon :: name :: equals :: τ)
      (.assign name.location name.text e (some type.text)) := by
  refine .peekSecond_bind h (p := (· = .colon)) hcolon fun u s₁ hu h₁ => ?_
  rw [if_pos ⟨hu, List.contains_iff_mem.mpr hmem⟩]
  exact arrives_declaration (he.reads _) h₁ htype hmem hcolon hname hequals hR hF

theorem arrives_named_assignment (he : ReadsExprs P expr R) {name equals : Token} {e : Expr}
    (h : At s (name :: equals :: τ) c) (hname : name.kind = .ident)
    (hequals : equals.kind = .equals) (hR : R Weight.operand τ e)
    (hF : ∃ t, c.Faces t ∧ ¬ Extends τ t.kind) :
    Arrives P (named types expr name) s (name :: equals :: τ)
      (.assign name.location name.text e none) := by
  refine .peekSecond_bind h (p := (· = .equals)) hequals fun u s₁ hu h₁ => ?_
  rw [if_neg (fun hx => by rw [hu] at hx; cases hx.1), if_pos hu]
  exact arrives_assignment (he.reads _) h₁ hname hequals hR hF

theorem arrives_named_cellAssignment (he : ReadsExprs P expr R) {name equals : Token}
    {g : Location × List Expr} {gs : List (Location × List Expr)} {e : Expr}
    (h : At s (name :: (τ ++ equals :: σ)) c) (hname : name.kind = .ident)
    (hg : IsIndexGroups (R (Weight.operand + 1 + Weight.index)) τ (g :: gs))
    (hequals : equals.kind = .equals) (hR : R Weight.operand σ e)
    (hF : ∃ t, c.Faces t ∧ ¬ Extends σ t.kind) :
    Arrives P (named types expr name) s (name :: (τ ++ equals :: σ))
      (.assignCell equals.location (indexed (.name name.location name.text) (g :: gs)) e) := by
  have hsecond : Follow c (· = .lbracket) (τ ++ equals :: σ) := by
    cases hg with
    | cons hl _ _ => exact hl
  refine .peekSecond_bind h hsecond fun u s₁ hu h₁ => ?_
  rw [if_neg (fun hx => by rw [hu] at hx; cases hx.1), if_neg (by rw [hu]; decide), if_pos hu]
  refine .bind_nil (a := true) h₁ ?_ fun s₂ h₂ => ?_
  · refine arrives_cellFollows he.balanced h₁ hg ?_
    rw [Follow, hequals]
    decide
  rw [if_pos rfl]
  exact arrives_cellAssignment he h₂ hname hg hequals hR hF

/-- A bare expression that begins with a name is told from the assignments. -/
theorem arrives_named_evaluate (he : ReadsExprs P expr R) {t : Token} {e : Expr}
    (h : At s (t :: τ) c) (ht : t.kind = .ident) (hR : R 0 (t :: τ) e)
    (hF : ∃ u, c.Faces u ∧ ¬ Continues (t :: τ) u.kind) :
    Arrives P (named types expr t) s (t :: τ) (.evaluate e) := by
  obtain ⟨v, hv, hn⟩ := hF
  have hshape := (he.reads 0).shape hR
  have hbare : ∀ {s₁}, At s₁ (t :: τ) c →
      Arrives P (bareExpression (expr 0)) s₁ (t :: τ) (.evaluate e) := fun h₁ =>
    (he.reads 0).parses.bind_last h₁ hR
      ⟨v, hv, fun hx => hn (continues_of_extends (τ := []) hshape hshape.not_keyword hx)⟩
      fun _ _ => .pure
  have hsecond : Follow c (fun k => k ≠ .colon ∧ k ≠ .equals ∧
      (k = .lbracket → ∀ w ∈ τ.head?, w.kind = .lbracket)) τ := by
    cases τ with
    | nil =>
      refine ⟨v, hv, fun hx => hn (.inr (.inr (.inl hx))), fun hx => hn (.inr (.inl hx)), ?_⟩
      exact fun _ w hw => nomatch hw
    | cons w τ =>
      obtain ⟨t', τ', heq, -, hu⟩ := hshape
      obtain ⟨rfl, rfl⟩ := List.cons.inj heq
      refine ⟨?_, ?_, fun hw x hx => ?_⟩
      · rcases hu ht w rfl with hx | hx <;> rw [hx] <;> decide
      · rcases hu ht w rfl with hx | hx <;> rw [hx] <;> decide
      · obtain rfl : w = x := by simpa using hx
        exact hw
  refine .peekSecond_bind h hsecond fun u s₁ hu h₁ => ?_
  rw [if_neg fun hx => hu.1 hx.1, if_neg hu.2.1]
  split
  · next hk =>
    obtain ⟨gs, hg, -⟩ := he.indices_of ht (hu.2.2 hk) hR
    refine .bind_nil (a := false) h₁ ?_ fun s₂ h₂ => hbare h₂
    refine arrives_cellFollows (τ := τ) (σ := []) he.balanced (by rwa [List.append_nil]) hg ?_
    refine ⟨v, hv, fun hx => ?_, beq_eq_false_iff_ne.mpr fun hx => hn (.inr (.inl hx))⟩
    exact hn (continues_of_extends (τ := []) hshape hshape.not_keyword (.inl hx))
  · exact hbare h₁

/-- The statement that a first token tells. -/
def statementOf (types : List TypeName) (expr : Nat → Reader Expr) (m : Reader Stmt) :
    Reader Stmt := do
  let t ← peek
  match t.kind with
  | .keyword .funcWord => definition types (expr Weight.default) m
  | .keyword .ifWord => choice (expr Weight.test) m
  | .keyword .whileWord => whileLoop (expr Weight.test) m
  | .keyword .forWord => countLoop (expr Weight.operand) m
  | .keyword .returnWord => returnStatement (expr Weight.operand)
  | .keyword .breakWord => breakStatement (expr Weight.test)
  | .keyword .continueWord => continueStatement
  | .ident => named types expr t
  | _ => bareExpression (expr 0)

/-- Whether a statement is over with its last token, so that the one behind it does not
matter. -/
def endsItself : Stmt → Bool
  | .whileLoop .. | .forLoop .. | .define .. | .returnValue .. | .breakLoops ..
  | .continueLoop .. => true
  | .ifElse _ _ otherwise => otherwise.isSome
  | _ => false

/-- A bare expression is told from every other statement. -/
theorem arrives_evaluate (he : ReadsExprs P expr R) {t : Token} {e : Expr}
    (h : At s (t :: τ) c) (ht : StartsExpr t.kind) (hR : R 0 (t :: τ) e)
    (hF : ∃ u, c.Faces u ∧ ¬ Continues (t :: τ) u.kind) :
    Arrives P (statementOf types expr m) s (t :: τ) (.evaluate e) := by
  refine .peek_bind h fun s₁ h₁ => ?_
  by_cases hi : t.kind = .ident
  · simp only [hi]
    exact arrives_named_evaluate he h₁ hi hR hF
  · have hshape := (he.reads 0).shape hR
    obtain ⟨u, hu, hn⟩ := hF
    have hbare : Arrives P (bareExpression (expr 0)) s₁ (t :: τ) (.evaluate e) :=
      (he.reads 0).parses.bind_last h₁ hR
        ⟨u, hu, fun hx => hn (continues_of_extends (τ := []) hshape hshape.not_keyword hx)⟩
        fun _ _ => .pure
    rcases ht with ht | ht | ht | ht | ht | ht
    · simp only [ht]; exact hbare
    · simp only [ht]; exact hbare
    · simp only [ht]; exact hbare
    · simp only [ht]; exact hbare
    · simp only [ht]; exact hbare
    · exact absurd ht hi

/-- **A statement is taken before a token that does not go on with it**, and whatever comes
behind it if it ends itself. -/
theorem statement_complete (he : ReadsExprs P expr R) (hm : ReadsStmt P m S) {a : Stmt}
    (h : At s τ c) (hR : IsStatement types Joins R S τ a)
    (hF : endsItself a = true ∨ ∃ t, c.Faces t ∧ ¬ Continues τ t.kind) :
    Arrives P (statementOf types expr m) s τ a := by
  have hopen : endsItself a = false → ∃ t, c.Faces t ∧ ¬ Continues τ t.kind := fun ha =>
    hF.resolve_left (by rw [ha]; exact Bool.false_ne_true)
  -- what does not go on with a statement does not go on with the expression it ends with
  have hlast : ∀ {w ρ σ e}, endsItself a = false → τ = ρ ++ σ → R w σ e →
      ¬ BeginsWithKeyword τ → ∃ t, c.Faces t ∧ ¬ Extends σ t.kind := by
    rintro w ρ σ e ha rfl hR hk
    obtain ⟨u, hu, hn⟩ := hopen ha
    exact ⟨u, hu, fun hx => hn (continues_of_extends ((he.reads w).shape hR) hk hx)⟩
  cases hR with
  | @declaration type colon name equals τ e htype hmem hcolon hname hequals hR =>
    refine .peek_bind h fun s₁ h₁ => ?_
    simp only [htype]
    exact arrives_named_declaration he h₁ htype hmem hcolon hname hequals hR
      (hlast (ρ := [type, colon, name, equals]) rfl rfl hR (not_begins_of_ident htype))
  | @assignment name equals τ e hname hequals hR =>
    refine .peek_bind h fun s₁ h₁ => ?_
    simp only [hname]
    exact arrives_named_assignment he h₁ hname hequals hR
      (hlast (ρ := [name, equals]) rfl rfl hR (not_begins_of_ident hname))
  | @cellAssignment name equals τ σ g gs e hname hg hequals hR =>
    refine .peek_bind h fun s₁ h₁ => ?_
    simp only [hname]
    exact arrives_named_cellAssignment he h₁ hname hg hequals hR
      (hlast (ρ := name :: (τ ++ [equals])) rfl (by simp) hR (not_begins_of_ident hname))
  | @choice keyword τ σ first others hk hfirst hothers =>
    refine .peek_bind h fun s₁ h₁ => ?_
    simp only [hk]
    rw [← List.append_nil σ] at h₁ ⊢
    obtain ⟨u, hu, hn⟩ := hopen rfl
    refine arrives_choice (he.reads _) hm h₁ hk hfirst hothers ?_ (.inl ⟨rfl, rfl, u, hu, ?_⟩)
    · exact ⟨u, hu, fun hx => hn (.inr (.inr (.inr (.inl hx))))⟩
    · exact fun hx => hn (.inr (.inr (.inr (.inr hx))))
  | @choiceElse keyword otherwise τ σ ρ first others b hk hfirst hothers ho hb =>
    refine .peek_bind h fun s₁ h₁ => ?_
    simp only [hk]
    refine arrives_choice (he.reads _) hm h₁ hk hfirst hothers ?_
      (.inr ⟨otherwise, ρ, b, rfl, rfl, ho, hb⟩)
    rw [Follow, ho]
    decide
  | whileLoop hk hR hb =>
    refine .peek_bind h fun s₁ h₁ => ?_
    simp only [hk]
    exact arrives_whileLoop (he.reads _) hm h₁ hk hR hb
  | forLoop hk hl hcounter hcomma hR hr hb =>
    refine .peek_bind h fun s₁ h₁ => ?_
    simp only [hk]
    exact arrives_countLoop (he.reads _) hm h₁ hk hl hcounter hcomma hR hr hb
  | define hk hname hl hparams hp hcolon htype hmem hb =>
    refine .peek_bind h fun s₁ h₁ => ?_
    simp only [hk]
    exact arrives_definition (he.reads _) hm h₁ hk hname hl hparams hp hcolon htype hmem hb
  | returnNothing hk hl hr =>
    refine .peek_bind h fun s₁ h₁ => ?_
    simp only [hk]
    exact arrives_returnNothing h₁ hk hl hr
  | returnValue hk hR =>
    refine .peek_bind h fun s₁ h₁ => ?_
    simp only [hk]
    exact arrives_returnStatement (he.reads _) h₁ hk hR
  | breakLoops hk hR =>
    refine .peek_bind h fun s₁ h₁ => ?_
    simp only [hk]
    exact arrives_breakStatement (he.reads _) h₁ hk hR
  | continueLoop hk hl hr =>
    refine .peek_bind h fun s₁ h₁ => ?_
    simp only [hk]
    exact arrives_continueStatement h₁ hk hl hr
  | evaluate hR =>
    obtain ⟨t, σ, rfl, ht, -⟩ := (he.reads 0).shape hR
    exact arrives_evaluate he h ht hR (hopen rfl)

end Complete

/-! ## Statements -/

theorem statement_sound (he : ReadsExprs P expr R) (hm : ReadsStmt P m S) :
    GivesStmt types R S (statementOf types expr m) := by
  intro s s' a hs h
  obtain ⟨t, s₁, h1, h⟩ := gives_bind.mp h
  obtain ⟨ht, c₁⟩ := gives_peek h1
  have hlift : ∀ {m : Reader Stmt}, GivesStmt types R S m → Gives m s₁ a s' →
      ∃ τ, IsStatement types Joins R S τ a ∧ Consumes s τ s' ∧
        ∀ t, s'.cursor.Faces t → ¬ Joins τ t.kind := by
    intro m hm hg
    obtain ⟨τ, h2, c₂, h3⟩ := hm (c₁.ready hs) hg
    exact ⟨τ, h2, c₁.trans c₂, h3⟩
  split at h
  · exact hlift (definition_gives (he.reads _) hm) h
  · exact hlift (choice_gives (he.reads _) hm) h
  · exact hlift (whileLoop_gives (he.reads _) hm) h
  · exact hlift (countLoop_gives (he.reads _) hm) h
  · exact hlift (returnStatement_gives (he.reads _)) h
  · exact hlift (breakStatement_gives (he.reads _)) h
  · exact hlift continueStatement_gives h
  · next hk =>
    obtain ⟨τ, h2, c₂, h3⟩ := named_gives he (c₁.faces ht) hk (c₁.ready hs) h
    exact ⟨τ, h2, c₁.trans c₂, h3⟩
  · exact hlift (bareExpression_gives (he.reads _)) h

theorem begins_statement (he : ReadsExprs P expr R) :
    Begins StartsStmt (IsStatement types Joins R S) := by
  intro τ a h
  cases h with
  | declaration hk => exact ⟨_, _, rfl, .inl (by simp [StartsExpr, hk])⟩
  | assignment hk => exact ⟨_, _, rfl, .inl (by simp [StartsExpr, hk])⟩
  | cellAssignment hk => exact ⟨_, _, rfl, .inl (by simp [StartsExpr, hk])⟩
  | choice hk => exact ⟨_, _, rfl, .inr ⟨_, hk, by decide, by decide⟩⟩
  | choiceElse hk => exact ⟨_, _, rfl, .inr ⟨_, hk, by decide, by decide⟩⟩
  | whileLoop hk => exact ⟨_, _, rfl, .inr ⟨_, hk, by decide, by decide⟩⟩
  | forLoop hk => exact ⟨_, _, rfl, .inr ⟨_, hk, by decide, by decide⟩⟩
  | define hk => exact ⟨_, _, rfl, .inr ⟨_, hk, by decide, by decide⟩⟩
  | returnNothing hk => exact ⟨_, _, rfl, .inr ⟨_, hk, by decide, by decide⟩⟩
  | returnValue hk => exact ⟨_, _, rfl, .inr ⟨_, hk, by decide, by decide⟩⟩
  | breakLoops hk => exact ⟨_, _, rfl, .inr ⟨_, hk, by decide, by decide⟩⟩
  | continueLoop hk => exact ⟨_, _, rfl, .inr ⟨_, hk, by decide, by decide⟩⟩
  | evaluate hR =>
    obtain ⟨t, σ, rfl, ht, -⟩ := (he.reads 0).shape hR
    exact ⟨t, σ, rfl, .inl ht⟩

/-- **What is read is a statement, and each statement is read.** -/
theorem statement_production (he : ReadsExprs P expr R) (hm : ReadsStmt P m S) :
    ReadsStmt P (statementOf types expr m) (IsStatement types Joins R S) where
  parses := ⟨statement_sound he hm, fun h hR hF => statement_complete he hm h hR (.inr hF)⟩
  shape := begins_statement he

/-- **Statements are read as deep as levels allow.** -/
theorem statement_reads_within
    (hfit : ∀ {text}, FitsDigits text → fits text)
    (hfits : ∀ {t : Token}, t.kind = .number → fits t.text → FitsDigits t.text ∨
      P t (.literalTooLong (digitCount t.text))) :
    ∀ (n extra : Nat), ReadsStmt P (statement types n extra) (StmtWithin types fits n extra) := by
  intro n
  induction n with
  | zero =>
    intro extra
    refine ⟨⟨fun _ h => absurd h not_gives_throw, fun _ h _ => h.elim⟩, fun _ _ h => h.elim⟩
  | succ n ih =>
    intro extra
    cases extra with
    | zero => exact statement_production (readsExprs_within hfit hfits n) (ih Weight.block)
    | succ extra => exact ih extra

/-- **Statements are read as the grammar has them**, if they do not nest too
deeply. -/
theorem statement_reads (hdeep : ∀ t, P t .tooDeep)
    (hlong : ∀ {t : Token}, t.kind = .number → ¬ FitsDigits t.text →
      P t (.literalTooLong (digitCount t.text))) :
    ∀ (n extra : Nat), ReadsStmt P (statement types n extra) (IsStmt types Joins) := by
  have hbegins : Begins StartsStmt (IsStmt types Joins) := fun τ s h =>
    begins_statement (readsExprs hdeep hlong 0) τ s (isStmt_iff.mp h)
  intro n
  induction n with
  | zero =>
    intro extra
    refine ⟨⟨fun _ h => absurd h not_gives_throw, fun _ hR _ => ?_⟩, hbegins⟩
    obtain ⟨t, σ, rfl, -⟩ := hbegins _ _ hR
    exact .inr ⟨_, _, fails_throw _ _, t, by simp, hdeep t⟩
  | succ n ih =>
    intro extra
    cases extra with
    | zero =>
      have h : ReadsStmt P (statement types (n + 1) 0) _ :=
        statement_production (readsExprs hdeep hlong n) (ih Weight.block)
      exact ⟨⟨fun hs hg => by simpa only [isStmt_iff] using h.parses.sound hs hg,
        fun ha hR hF => h.parses.complete ha (isStmt_iff.mp hR) hF⟩, hbegins⟩
    | succ extra => exact ih extra

end SpanScript.Reader
