import SpanScript.Proofs.Syntax.Brackets

/-!
# Parameters and blocks

What stands in the parentheses of a definition and in the braces of a statement.
A reader of statements is known by `ReadsStmt`: what goes on with a statement that
it has read, and how statements begin.

* `parameters_parses`, `undefaulted?_eq_none`: parameters and their order.
* `dropNewlines_parses`: newlines between statements.
* `block_parses`: a block is read up to its brace, and in it no statement is left
  before a token that goes on with it.
-/

namespace SpanScript.Reader

open Grammar

variable {α β : Type} {P : Token → ParseFault → Prop} {fits : String → Prop} {τ σ : List Token}
  {c : Cursor} {s s' : ReadState} {b : β}

/-! ## What goes on with statements -/

/-- What may not come behind a statement: more of its last expression, what makes
another statement of a name, and the next branch of a choice. -/
def Continues (τ : List Token) (k : TokenKind) : Prop :=
  Joins τ k ∨ k = .equals ∨ k = .colon ∨ k = .keyword .elseifWord ∨ k = .keyword .elseWord

def StartsStmt (k : TokenKind) : Prop :=
  StartsExpr k ∨ ∃ w, k = .keyword w ∧ w ≠ .elseifWord ∧ w ≠ .elseWord

theorem startsStmt_ne {k : TokenKind} (hk : StartsStmt k) :
    k ≠ .newline ∧ k ≠ .rbrace ∧ k ≠ .eof := by
  refine ⟨?_, ?_, ?_⟩ <;> rintro rfl <;> simp [StartsStmt, StartsExpr] at hk

structure ReadsStmt (P : Token → ParseFault → Prop) (m : Reader Stmt) (S : Phrase Stmt) :
    Prop where
  parses : Parses P Joins Continues m S
  shape : Begins StartsStmt S

theorem not_joins_keyword {t : Token} {w : Keyword} (h : t.kind = .keyword w) (k : TokenKind) :
    ¬ Joins (t :: τ) k := fun hj => hj.2 ⟨t, rfl, w, h⟩

theorem ExprShape.not_keyword (h : ExprShape τ) : ¬ BeginsWithKeyword τ := by
  obtain ⟨t, σ, rfl, ht, -⟩ := h
  rintro ⟨u, hu, w, hw⟩
  obtain rfl : t = u := by simpa using hu
  rw [hw] at ht
  simp [StartsExpr] at ht

/-- More of the last expression is more of the statement. -/
theorem continues_of_extends {k : TokenKind} (hσ : ExprShape σ) (hτ : ¬ BeginsWithKeyword (τ ++ σ))
    (h : Extends σ k) : Continues (τ ++ σ) k := .inl ⟨(extends_append hσ.ne_nil).mpr h, hτ⟩

theorem not_begins_of_ident {t : Token} (h : t.kind = .ident) : ¬ BeginsWithKeyword (t :: τ) := by
  rintro ⟨u, hu, w, hw⟩
  obtain rfl : t = u := by simpa using hu
  rw [h] at hw
  cases hw

/-! ## Types and parameters -/

theorem gives_typeName {types : List TypeName} {a : TypeName} (h : Gives (typeName types) s a s') :
    ∃ t : Token, t.kind = .ident ∧ t.text ∈ types ∧ a = t.text ∧ Consumes s [t] s' := by
  obtain ⟨t, s₁, h1, h⟩ := gives_bind.mp h
  obtain ⟨ht, c₁⟩ := gives_expect (by decide) h1
  split at h
  · next hmem =>
    obtain ⟨rfl, rfl⟩ := gives_pure.mp h
    exact ⟨t, ht, List.contains_iff_mem.mp hmem, rfl, c₁⟩
  · exact absurd h not_gives_fail

theorem Arrives.typeName_bind {types : List TypeName} {t : Token} {f : TypeName → Reader β}
    (h : At s (t :: τ) c) (ht : t.kind = .ident) (hmem : t.text ∈ types)
    (hf : ∀ s', At s' τ c → Arrives P (f t.text) s' τ b) :
    Arrives P (typeName types >>= f) s (t :: τ) b := by
  refine .bind (τ := [t]) h ?_ hf
  obtain ⟨d, h1, -⟩ := At.take (τ := [t]) h
  refine .expect_bind h1 ht fun s₁ h₁ => ?_
  rw [if_pos (List.contains_iff_mem.mpr hmem)]
  exact .pure

theorem parameter_parses {types : List TypeName} {m : Reader Expr} {R : Phrase Expr}
    (hm : ReadsExpr P m R) :
    Parses P Never ExtendsArgument (parameter types m) (IsParam types R) where
  sound := by
    intro s s' p hs h
    obtain ⟨type, s₁, h1, h⟩ := gives_bind.mp h
    obtain ⟨t, ht, hmem, rfl, c₁⟩ := gives_typeName h1
    obtain ⟨colon, s₂, h2, h⟩ := gives_bind.mp h
    obtain ⟨hcolon, c₂⟩ := gives_expect (by decide) h2
    obtain ⟨name, s₃, h3, h⟩ := gives_bind.mp h
    obtain ⟨hname, c₃⟩ := gives_expect (by decide) h3
    obtain ⟨_, s₄, h4, h⟩ := gives_bind.mp h
    rcases gives_accept (by decide) h4 with ⟨rfl, e, he, c₄⟩ | ⟨rfl, c₄, -⟩
    · rw [if_pos rfl] at h
      obtain ⟨v, s₅, h5, h⟩ := gives_bind.mp h
      obtain ⟨rfl, rfl⟩ := gives_pure.mp h
      obtain ⟨τ, hR, c₅, -⟩ :=
        hm.parses.sound (c₄.ready (c₃.ready (c₂.ready (c₁.ready hs)))) h5
      exact ⟨_, .default ht hmem hcolon hname he hR,
        c₁.trans (c₂.trans (c₃.trans (c₄.trans c₅))), fun _ _ => not_never _ _⟩
    · rw [if_neg Bool.false_ne_true] at h
      obtain ⟨rfl, rfl⟩ := gives_pure.mp h
      exact ⟨_, .plain ht hmem hcolon hname, c₁.trans (c₂.trans (c₃.trans c₄)),
        fun _ _ => not_never _ _⟩
  complete := by
    intro s τ p c h hR
    rintro ⟨u, hu, hn⟩
    cases hR with
    | @plain type colon name ht hmem hcolon hname =>
      refine .typeName_bind h ht hmem fun s₁ h₁ => ?_
      refine .expect_bind h₁ hcolon fun s₂ h₂ => ?_
      refine .expect_bind h₂ hname fun s₃ h₃ => ?_
      exact .accept_bind_false h₃ ⟨u, hu, fun hx => hn (.inr hx)⟩ fun _ _ => .pure
    | @default type colon name equals τ e ht hmem hcolon hname he hR =>
      refine .typeName_bind h ht hmem fun s₁ h₁ => ?_
      refine .expect_bind h₁ hcolon fun s₂ h₂ => ?_
      refine .expect_bind h₂ hname fun s₃ h₃ => ?_
      refine .accept_bind_true h₃ he fun s₄ h₄ => ?_
      rw [if_pos rfl]
      refine hm.parses.bind_last h₄ hR ⟨u, hu, fun hx => hn (.inl ?_)⟩ fun _ _ => .pure
      exact (extends_append (τ := [type, colon, name, equals]) (hm.shape hR).ne_nil).mpr hx

theorem parameters_parses {types : List TypeName} {m : Reader Expr} {R : Phrase Expr}
    (hm : ReadsExpr P m R) : Parses P Never Never (commaList .rparen (parameter types m))
      (IsCommaList .rparen (IsParam types R)) := by
  refine commaList_parses (parameter_parses hm) (by decide) (by decide) (fun _ => ?_) ?_
  · exact ⟨not_extends_argument (by decide) (by decide) (by decide),
      not_extends_argument (by decide) (by decide) (by decide)⟩
  · rintro τ p (⟨ht, -⟩ | ⟨ht, -⟩) <;> exact ⟨_, _, rfl, by rw [ht]; decide⟩

/-- Parameters without default come first, or the first one that does not is
found. -/
theorem undefaulted?_eq_none : ∀ {params : List Param} {seen : Bool},
    undefaulted? seen params = none ↔ (seen = true → ∀ p ∈ params, p.default.isSome) ∧
      params.Pairwise (fun p q => p.default.isSome → q.default.isSome) := by
  intro params
  induction params with
  | nil => intro seen; simp [undefaulted?]
  | cons p params ih =>
    intro seen
    rw [undefaulted?]
    by_cases hp : p.default.isSome = true
    · rw [if_pos hp, ih]
      simp only [hp, List.mem_cons, forall_eq_or_imp, true_and, List.pairwise_cons, true_implies]
      exact ⟨fun h => ⟨fun _ => h.1, h⟩, fun h => h.2⟩
    · rw [if_neg hp]
      cases seen
      · simp [ih, hp]
      · simp [hp]

/-! ## Blocks -/

def IsNewlines (τ : List Token) : Prop := ∀ t ∈ τ, t.kind = .newline

theorem dropNewlines_parses :
    Parses P (fun _ k => k = .newline) (fun _ k => k = .newline) dropNewlines
      (fun τ _ => IsNewlines τ) := by
  have hunit : Parses P Never Never (pure () : Reader Unit) (fun τ _ => τ = []) := by
    refine ⟨fun {s s' a} _ h => ?_, fun {s τ a c} _ hR _ => ?_⟩
    · obtain ⟨-, rfl⟩ := gives_pure.mp h
      exact ⟨[], rfl, .refl _, fun _ _ => not_never _ _⟩
    · subst hR
      exact .pure
  have heach := each_parses (k := .newline) (by decide) hunit fun _ => not_never _ _
  have hto : ∀ {τ : List Token} {us : List Unit},
      IsEach .newline (fun τ (_ : Unit) => τ = []) τ us → IsNewlines τ := by
    intro τ us h
    induction h with
    | nil => exact fun t ht => nomatch ht
    | cons ht hσ _ ih =>
      subst hσ
      exact List.forall_mem_cons.mpr ⟨ht, ih⟩
  have hof : ∀ {τ : List Token}, IsNewlines τ →
      ∃ us : List Unit, IsEach .newline (fun τ (_ : Unit) => τ = []) τ us := by
    intro τ
    induction τ with
    | nil => exact fun _ => ⟨[], .nil⟩
    | cons t τ ih =>
      intro h
      obtain ⟨ht, hτ⟩ := List.forall_mem_cons.mp h
      obtain ⟨us, hus⟩ := ih hτ
      exact ⟨() :: us, .cons (τ := []) (a := ()) ht rfl hus⟩
  refine ⟨fun {s s' a} hs h => ?_, fun {s τ a c} h hR hF => ?_⟩
  · obtain ⟨us, s₁, h1, h⟩ := gives_bind.mp h
    obtain ⟨-, rfl⟩ := gives_pure.mp h
    obtain ⟨τ, hR, hc, hn⟩ := heach.sound hs h1
    exact ⟨τ, hto hR, hc, hn⟩
  · obtain ⟨us, hus⟩ := hof hR
    obtain ⟨t, ht, hn⟩ := hF
    refine heach.bind_last h hus ⟨t, ht, ?_⟩ fun _ _ => .pure
    rintro (hx | ⟨_, hx⟩)
    · exact hn hx
    · exact hx

theorem gives_blockItem {m : Reader Stmt} {S : Phrase Stmt} (hm : ReadsStmt P m S)
    {o : Option Stmt} (hs : Ready s) (h : Gives (blockItem m) s o s') :
    (o = none ∧ ∃ ν t, IsNewlines ν ∧ t.kind = .rbrace ∧ Consumes s (ν ++ [t]) s') ∨
    ∃ a ν τ, o = some a ∧ IsNewlines ν ∧ S τ a ∧ Consumes s (ν ++ τ) s' ∧
      ∀ t, s'.cursor.Faces t → ¬ Joins τ t.kind := by
  obtain ⟨_, s₁, h1, h⟩ := gives_bind.mp h
  obtain ⟨ν, hν, c₁, -⟩ := (dropNewlines_parses (P := P)).sound hs h1
  obtain ⟨_, s₂, h2, h⟩ := gives_bind.mp h
  rcases gives_accept (by decide) h2 with ⟨rfl, t, ht, c₂⟩ | ⟨rfl, c₂, -⟩
  · rw [if_pos rfl] at h
    obtain ⟨rfl, rfl⟩ := gives_pure.mp h
    exact .inl ⟨rfl, ν, t, hν, ht, c₁.trans c₂⟩
  · rw [if_neg Bool.false_ne_true] at h
    obtain ⟨t, s₃, h3, h⟩ := gives_bind.mp h
    obtain ⟨-, c₃⟩ := gives_peek h3
    split at h
    · exact absurd h not_gives_fail
    · obtain ⟨a, s₄, h4, h⟩ := gives_bind.mp h
      obtain ⟨rfl, rfl⟩ := gives_pure.mp h
      obtain ⟨τ, hS, c₄, hn⟩ := hm.parses.sound (c₃.ready (c₂.ready (c₁.ready hs))) h4
      exact .inr ⟨a, ν, τ, rfl, hν, hS, c₁.trans (c₂.trans (c₃.trans c₄)), hn⟩

theorem blockItem_advances {m : Reader Stmt} {S : Phrase Stmt} (hm : ReadsStmt P m S) :
    Advances (blockItem m) := by
  intro s s' a hs h
  rcases gives_blockItem hm hs h with ⟨h, -⟩ | ⟨a, ν, τ, -, -, hS, hc, -⟩
  · cases h
  · obtain ⟨t, σ, rfl, -⟩ := hm.shape _ _ hS
    exact ⟨_, by simp, hc⟩

theorem items_newlines {joins : List Token → TokenKind → Prop} {S : Phrase Stmt}
    {ss : List Stmt} (h : IsItems joins S τ ss) : ∀ {ν : List Token}, IsNewlines ν →
    IsItems joins S (ν ++ τ) ss := by
  intro ν
  induction ν with
  | nil => exact fun _ => h
  | cons t ν ih =>
    intro hν
    obtain ⟨ht, hν⟩ := List.forall_mem_cons.mp hν
    exact .newline ht (ih hν)

theorem items_head {joins : List Token → TokenKind → Prop} {S : Phrase Stmt} {ss : List Stmt}
    (hS : Begins StartsStmt S) (h : IsItems joins S τ ss) : ∃ t σ, τ = t :: σ ∧
      (t.kind = .rbrace ∨ t.kind = .newline ∨ StartsStmt t.kind) := by
  cases h with
  | close ht => exact ⟨_, _, rfl, .inl ht⟩
  | newline ht _ => exact ⟨_, _, rfl, .inr (.inl ht)⟩
  | stmt hs _ _ =>
    obtain ⟨t, σ, rfl, ht⟩ := hS _ _ hs
    exact ⟨_, _, rfl, .inr (.inr ht)⟩

theorem items_sound {m : Reader Stmt} {S : Phrase Stmt} (hm : ReadsStmt P m S) {ss : List Stmt}
    (hs : Ready s) (h : Gives (many (blockItem m)) s ss s') :
    ∃ τ, IsItems Joins S τ ss ∧ Consumes s τ s' := by
  refine many_induction (blockItem_advances hm) (motive := fun s ss s' =>
    ∃ τ, IsItems Joins S τ ss ∧ Consumes s τ s') ?_ ?_ _ (Nat.lt_succ_self _) hs h
  · intro s s' hs h
    rcases gives_blockItem hm hs h with ⟨-, ν, t, hν, ht, hc⟩ | ⟨_, _, _, h, -⟩
    · exact ⟨_, items_newlines (.close ht) hν, hc⟩
    · cases h
  · rintro s s₁ s' a ss hs h ⟨σ, hσ, hc⟩
    rcases gives_blockItem hm hs h with ⟨h, -⟩ | ⟨a, ν, τ, h, hν, hS, c₁, hn⟩
    · cases h
    · cases h
      obtain ⟨t, σ, rfl, -⟩ := items_head hm.shape hσ
      refine ⟨(ν ++ τ) ++ t :: σ, ?_, c₁.trans hc⟩
      rw [List.append_assoc]
      exact items_newlines (.stmt hS (hn t hc.reads.faces) hσ) hν

/-- What comes in a block behind a statement goes on with it only as its
expression does. -/
theorem not_continues {k : TokenKind} (hj : ¬ Joins τ k)
    (hk : k = .rbrace ∨ k = .newline ∨ StartsStmt k) : ¬ Continues τ k := by
  rintro (h | h)
  · exact hj h
  · rcases h with rfl | rfl | rfl | rfl <;> simp [StartsStmt, StartsExpr] at hk

theorem items_complete {m : Reader Stmt} {S : Phrase Stmt} (hm : ReadsStmt P m S) {ss : List Stmt}
    (hR : IsItems Joins S τ ss) : ∀ {ν : List Token} {s : ReadState},
    IsNewlines ν → At s (ν ++ τ) c → Arrives P (many (blockItem m)) s (ν ++ τ) ss := by
  induction hR with
  | @close t ht =>
    intro ν s hν h
    refine .many_stop (blockItem_advances hm) h ?_
    refine dropNewlines_parses.bind (a := ()) h hν (by rw [Follow, ht]; decide) fun s₁ h₁ => ?_
    refine .accept_bind_true h₁ ht fun s₂ h₂ => ?_
    exact .pure
  | @newline t τ ss ht _ ih =>
    intro ν s hν h
    rw [← List.singleton_append, ← List.append_assoc] at h ⊢
    refine ih (fun u hu => ?_) h
    rcases List.mem_append.mp hu with hu | hu
    · exact hν u hu
    · rw [List.mem_singleton.mp hu, ht]
  | @stmt t τ σ a ss hS hj hσ ih =>
    intro ν s hν h
    rw [← List.append_assoc] at h ⊢
    have hnil : IsNewlines [] := List.forall_mem_nil _
    refine .many_turn (blockItem_advances hm) h ?_ fun s₁ h₁ => ih hnil h₁
    obtain ⟨d, h1, h2⟩ := h.take
    obtain ⟨u, ρ, rfl, hu⟩ := hm.shape _ _ hS
    obtain ⟨h3, h4, h5⟩ := startsStmt_ne hu
    refine dropNewlines_parses.bind (a := ()) h1 hν h3 fun s₁ h₁ => ?_
    refine .accept_bind_false h₁ h4 fun s₂ h₂ => ?_
    refine .peek_bind h₂ fun s₃ h₃ => ?_
    rw [if_neg h5]
    refine hm.parses.bind_last h₃ hS ⟨t, h2.faces, not_continues hj ?_⟩ fun _ _ => .pure
    obtain ⟨v, ρ', hv, hk⟩ := items_head hm.shape hσ
    obtain rfl := (List.cons.inj hv).1
    exact hk

/-- A block is taken whatever comes behind it. -/
theorem arrives_block {m : Reader Stmt} {S : Phrase Stmt} {b : Block} (hm : ReadsStmt P m S)
    (h : At s τ c) (hR : IsBlock Joins S τ b) : Arrives P (block m) s τ b := by
  cases hR with
  | @mk l τ ss hl hR =>
    refine .peek_bind h fun s₁ h₁ => ?_
    rw [if_neg (fun hne => hne hl)]
    refine .expect_bind h₁ hl fun s₂ h₂ => ?_
    exact .bind_last h₂ (items_complete hm hR (ν := []) (List.forall_mem_nil _) h₂)
      fun _ _ => .pure

theorem block_parses {m : Reader Stmt} {S : Phrase Stmt} (hm : ReadsStmt P m S) :
    Parses P Never Never (block m) (IsBlock Joins S) where
  sound := by
    intro s s' b hs h
    obtain ⟨t, s₁, h1, h⟩ := gives_bind.mp h
    obtain ⟨-, c₁⟩ := gives_peek h1
    split at h
    · exact absurd h not_gives_fail
    · obtain ⟨l, s₂, h2, h⟩ := gives_bind.mp h
      obtain ⟨hl, c₂⟩ := gives_expect (by decide) h2
      obtain ⟨ss, s₃, h3, h⟩ := gives_bind.mp h
      obtain ⟨τ, hR, c₃⟩ := items_sound hm (c₂.ready (c₁.ready hs)) h3
      obtain ⟨rfl, rfl⟩ := gives_pure.mp h
      exact ⟨_, .mk hl hR, c₁.trans (c₂.trans c₃), fun _ _ => not_never _ _⟩
  complete h hR _ := arrives_block hm h hR

/-- A test and its block are taken whatever comes behind them. -/
theorem arrives_guarded {e : Reader Expr} {R : Phrase Expr} {b : Branch} (he : ReadsExpr P e R)
    {m : Reader Stmt} {S : Phrase Stmt} (hm : ReadsStmt P m S) (h : At s τ c)
    (hR : IsGuarded R (IsBlock Joins S) τ b) : Arrives P (guarded e m) s τ b := by
  cases hR with
  | @mk τ σ e b hR hS =>
    obtain ⟨d, h1, -⟩ := h.take
    refine .bind h (arrives_group he h1 hR) fun s₁ h₁ => ?_
    exact .bind_last h₁ (arrives_block hm h₁ hS) fun _ _ => .pure

theorem guarded_parses {e : Reader Expr} {R : Phrase Expr} (he : ReadsExpr P e R)
    {m : Reader Stmt} {S : Phrase Stmt} (hm : ReadsStmt P m S) :
    Parses P Never Never (guarded e m) (IsGuarded R (IsBlock Joins S)) where
  sound := by
    intro s s' b hs h
    obtain ⟨test, s₁, h1, h⟩ := gives_bind.mp h
    obtain ⟨τ, hR, c₁, -⟩ := (group_parses he).sound hs h1
    obtain ⟨body, s₂, h2, h⟩ := gives_bind.mp h
    obtain ⟨σ, hS, c₂, -⟩ := (block_parses hm).sound (c₁.ready hs) h2
    obtain ⟨rfl, rfl⟩ := gives_pure.mp h
    exact ⟨_, .mk hR hS, c₁.trans c₂, fun _ _ => not_never _ _⟩
  complete h hR _ := arrives_guarded he hm h hR

end SpanScript.Reader
