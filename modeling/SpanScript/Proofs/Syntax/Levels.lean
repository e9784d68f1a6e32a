import SpanScript.Proofs.Syntax.Grammar

/-!
# How deep phrases nest

The parts of a phrase are shorter than the phrase, so a phrase nests no deeper
than its length allows: `2 * τ.length` levels are enough for an expression, and
one more for a statement.  What a production allows depends only on what it
allows of the parts, which is what the `imp` lemmas say; in each of them the
parts may be taken to be shorter by two tokens.

* `isExpr_of_within`, `within_of_isExpr`: the expressions of the grammar are those
  that can be read within some number of levels.
* `isStmt_of_within`, `within_of_isStmt`: the same for statements.
* `Balanced`: brackets in expressions balance.
-/

namespace SpanScript.Grammar

variable {α : Type} {τ : List Token}

/-! ## Productions and their parts -/

theorem IsEach.imp {k : TokenKind} {R S : Phrase α} {as : List α} (h : IsEach k R τ as) :
    (∀ σ a, σ.length < τ.length → R σ a → S σ a) → IsEach k S τ as := by
  induction h with
  | nil => exact fun _ => .nil
  | @cons t τ σ a as ht ha _ ih =>
    intro hi
    refine .cons ht (hi _ _ ?_ ha) (ih fun ρ b hρ => hi ρ b ?_) <;>
      simp only [List.length_cons, List.length_append] <;> omega

theorem IsCommaList.imp {closer : TokenKind} {R S : Phrase α} {as : List α}
    (h : IsCommaList closer R τ as) (hi : ∀ σ a, σ.length < τ.length → R σ a → S σ a) :
    IsCommaList closer S τ as := by
  cases h with
  | empty ht => exact .empty ht
  | @items t τ σ a as ha hσ ht =>
    refine .items (hi _ _ ?_ ha) (hσ.imp fun ρ b hρ => hi ρ b ?_) ht <;>
      simp only [List.length_append, List.length_singleton] <;> omega

theorem IsParenthesized.imp {R S : Phrase Expr} {e : Expr} (h : IsParenthesized R τ e)
    (hi : ∀ σ e, σ.length + 2 ≤ τ.length → R σ e → S σ e) : IsParenthesized S τ e := by
  cases h with
  | mk hl hR hr => exact .mk hl (hi _ _ (by simp) hR) hr

theorem IsArgument.imp {R S : Phrase Expr} {a : Argument} (h : IsArgument R τ a)
    (hi : ∀ σ e, σ.length ≤ τ.length → R σ e → S σ e) : IsArgument S τ a := by
  cases h with
  | keyword hn he hR =>
    exact .keyword hn he (hi _ _ (Nat.le_succ_of_le (Nat.le_succ _)) hR)
  | positional hR => exact .positional (hi _ _ (Nat.le_refl _) hR)

theorem IsPrimary.imp {fits : String → Prop} {R S : Nat → Phrase Expr} {e : Expr}
    (h : IsPrimary fits R τ e)
    (hi : ∀ w σ e, w ≤ 3 → σ.length + 2 ≤ τ.length → R w σ e → S w σ e) :
    IsPrimary fits S τ e := by
  cases h with
  | number hk hf => exact .number hk hf
  | float hk => exact .float hk
  | string hk => exact .string hk
  | tensor hk hR =>
    exact .tensor hk (hR.imp fun σ e hσ => hi _ σ e (by decide) (Nat.succ_le_succ hσ))
  | group hR => exact .group (hR.imp fun σ e hσ => hi _ σ e (by decide) hσ)
  | name hk => exact .name hk
  | call hk hl hR hp =>
    refine .call hk hl (hR.imp fun σ a hσ ha => ha.imp fun ρ e hρ => hi _ ρ e (by decide) ?_) hp
    simp only [List.length_cons]
    omega

theorem IsIndexGroups.imp {R S : Phrase Expr} {gs : List (Location × List Expr)}
    (h : IsIndexGroups R τ gs) : (∀ σ e, σ.length + 2 ≤ τ.length → R σ e → S σ e) →
    IsIndexGroups S τ gs := by
  induction h with
  | nil => exact fun _ => .nil
  | @cons t τ σ indices gs ht hR _ ih =>
    intro hi
    refine .cons ht (hR.imp fun ρ e hρ => hi ρ e ?_) (ih fun ρ e hρ => hi ρ e ?_) <;>
      simp only [List.length_cons, List.length_append] <;> omega

theorem IsExpression.imp {fits : String → Prop} {R R' : Nat → Phrase Expr} {S S' : Phrase Expr}
    {e : Expr} (h : IsExpression (IsPrimary fits R) S τ e)
    (hR : ∀ w σ e, w ≤ 3 → σ.length + 2 ≤ τ.length → R w σ e → R' w σ e)
    (hS : ∀ σ e, σ.length + 2 ≤ τ.length → S σ e → S' σ e) :
    IsExpression (IsPrimary fits R') S' τ e := by
  cases h with
  | @mk τ σ head gs hp hg =>
    rw [List.length_append] at hR hS
    exact .mk (hp.imp fun w ρ e hw hρ => hR w ρ e hw (by omega))
      (hg.imp fun ρ e hρ => hS ρ e (by omega))

theorem IsParam.imp {types : List TypeName} {R S : Phrase Expr} {p : Param}
    (h : IsParam types R τ p) (hi : ∀ σ e, σ.length ≤ τ.length → R σ e → S σ e) :
    IsParam types S τ p := by
  cases h with
  | plain h1 h2 h3 h4 => exact .plain h1 h2 h3 h4
  | default h1 h2 h3 h4 h5 hR =>
    refine .default h1 h2 h3 h4 h5 (hi _ _ ?_ hR)
    simp only [List.length_cons]
    omega

section Blocks

variable {joins joins' : List Token → TokenKind → Prop} (hj : ∀ σ k, joins' σ k → joins σ k)

include hj

theorem IsItems.imp {R S : Phrase Stmt} {ss : List Stmt} (h : IsItems joins R τ ss) :
    (∀ σ s, σ.length < τ.length → R σ s → S σ s) → IsItems joins' S τ ss := by
  induction h with
  | close ht => exact fun _ => .close ht
  | newline ht _ ih =>
    exact fun hi => .newline ht (ih fun σ s hσ => hi σ s (Nat.lt_succ_of_lt hσ))
  | @stmt t τ σ s ss hs hn _ ih =>
    intro hi
    refine .stmt (hi _ _ (by simp) hs) (fun hx => hn (hj _ _ hx)) (ih fun ρ s hρ => hi ρ s ?_)
    rw [List.length_append]
    omega

theorem IsBlock.imp {R S : Phrase Stmt} {b : Block} (h : IsBlock joins R τ b)
    (hi : ∀ σ s, σ.length + 2 ≤ τ.length → R σ s → S σ s) : IsBlock joins' S τ b := by
  cases h with
  | mk hl hR => exact .mk hl (hR.imp hj fun σ s hσ => hi σ s (Nat.succ_le_succ hσ))

theorem IsGuarded.imp {R R' : Phrase Expr} {S S' : Phrase Stmt} {b : Branch}
    (h : IsGuarded R (IsBlock joins S) τ b)
    (hR : ∀ σ e, σ.length + 2 ≤ τ.length → R σ e → R' σ e)
    (hS : ∀ σ s, σ.length + 2 ≤ τ.length → S σ s → S' σ s) :
    IsGuarded R' (IsBlock joins' S') τ b := by
  cases h with
  | mk ht hb =>
    rw [List.length_append] at hR hS
    exact .mk (ht.imp fun σ e hσ => hR σ e (by omega))
      (hb.imp hj fun σ s hσ => hS σ s (by omega))

end Blocks

/-- How long a part of a phrase is that is an expression: it is shorter by two
tokens, or it is the whole of a statement. -/
def PartOf (w : Nat) (σ τ : List Token) : Prop :=
  (w ≤ 3 ∧ σ.length + 2 ≤ τ.length) ∨ (w = 0 ∧ σ = τ)

theorem IsStatement.imp {types : List TypeName} {joins joins' : List Token → TokenKind → Prop}
    {R R' : Nat → Phrase Expr} {S S' : Phrase Stmt} {s : Stmt}
    (h : IsStatement types joins R S τ s) (hj : ∀ σ k, joins' σ k → joins σ k)
    (hR : ∀ w σ e, PartOf w σ τ → R w σ e → R' w σ e)
    (hS : ∀ σ s, σ.length + 2 ≤ τ.length → S σ s → S' σ s) :
    IsStatement types joins' R' S' τ s := by
  have hE : ∀ w σ e, w ≤ 3 → σ.length + 2 ≤ τ.length → R w σ e → R' w σ e :=
    fun w σ e hw hσ => hR w σ e (.inl ⟨hw, hσ⟩)
  cases h with
  | declaration h1 h2 h3 h4 h5 he =>
    refine .declaration h1 h2 h3 h4 h5 (hE _ _ _ (by decide) ?_ he)
    simp only [List.length_cons]
    omega
  | assignment h1 h2 he => exact .assignment h1 h2 (hE _ _ _ (by decide) (by simp) he)
  | cellAssignment h1 hg h2 he =>
    simp only [List.length_cons, List.length_append] at hE
    exact .cellAssignment h1 (hg.imp fun σ e hσ => hE _ σ e (by decide) (by omega)) h2
      (hE _ _ _ (by decide) (by omega) he)
  | choice hk hb hbs =>
    simp only [List.length_cons, List.length_append] at hE hS
    refine .choice hk (hb.imp hj (fun σ e hσ => hE _ σ e (by decide) (by omega))
      fun σ s hσ => hS σ s (by omega)) (hbs.imp fun σ b hσ h => h.imp hj ?_ ?_)
    · exact fun ρ e hρ => hE _ ρ e (by decide) (by omega)
    · exact fun ρ s hρ => hS ρ s (by omega)
  | choiceElse hk hb hbs ho hc =>
    simp only [List.length_cons, List.length_append] at hE hS
    refine .choiceElse hk (hb.imp hj (fun σ e hσ => hE _ σ e (by decide) (by omega))
      fun σ s hσ => hS σ s (by omega)) (hbs.imp fun σ b hσ h => h.imp hj ?_ ?_) ho
      (hc.imp hj fun σ s hσ => hS σ s (by omega))
    · exact fun ρ e hρ => hE _ ρ e (by decide) (by omega)
    · exact fun ρ s hρ => hS ρ s (by omega)
  | whileLoop hk he hb =>
    simp only [List.length_cons, List.length_append] at hE hS
    exact .whileLoop hk (he.imp fun σ e hσ => hE _ σ e (by decide) (by omega))
      (hb.imp hj fun σ s hσ => hS σ s (by omega))
  | forLoop hk hl hc hcomma he hr hb =>
    simp only [List.length_cons, List.length_append] at hE hS
    exact .forLoop hk hl hc hcomma (hE _ _ _ (by decide) (by omega) he) hr
      (hb.imp hj fun σ s hσ => hS σ s (by omega))
  | define hk hn hl hps hp hc ht htt hb =>
    simp only [List.length_cons, List.length_append] at hE hS
    refine .define hk hn hl (hps.imp fun σ p hσ h => h.imp fun ρ e hρ => ?_) hp hc ht htt
      (hb.imp hj fun σ s hσ => hS σ s (by omega))
    exact hE _ ρ e (by decide) (by omega)
  | returnNothing hk hl hr => exact .returnNothing hk hl hr
  | returnValue hk he =>
    exact .returnValue hk (he.imp fun σ e hσ => hE _ σ e (by decide) (Nat.le_succ_of_le hσ))
  | breakLoops hk he =>
    exact .breakLoops hk (he.imp fun σ e hσ => hE _ σ e (by decide) (Nat.le_succ_of_le hσ))
  | continueLoop hk hl hr => exact .continueLoop hk hl hr
  | evaluate he => exact .evaluate (hR _ _ _ (.inr ⟨rfl, rfl⟩) he)

/-! ## Expressions and levels -/

theorem IsPrimary.length_pos {fits : String → Prop} {R : Nat → Phrase Expr} {e : Expr}
    (h : IsPrimary fits R τ e) : 0 < τ.length := by
  cases h with
  | group h => cases h; simp
  | _ => simp

theorem IsExpression.length_pos {fits : String → Prop} {R : Nat → Phrase Expr} {S : Phrase Expr}
    {e : Expr} (h : IsExpression (IsPrimary fits R) S τ e) : 0 < τ.length := by
  cases h with
  | mk hp _ =>
    rw [List.length_append]
    exact Nat.lt_add_right _ hp.length_pos

theorem isExpr_iff {e : Expr} :
    IsExpr τ e ↔ IsExpression (IsPrimary (fun _ => True) fun _ => IsExpr) IsExpr τ e :=
  ⟨fun ⟨h⟩ => h, .mk⟩

/-- Levels that are taken are levels less. -/
theorem exprWithin_add (fits : String → Prop) (n m : Nat) : ∀ (extra : Nat),
    ExprWithin fits (n + extra) (m + extra) = ExprWithin fits n m := by
  intro extra
  induction extra with
  | zero => rfl
  | succ extra ih => exact ih

theorem IsPrimary.any {fits : String → Prop} {R : Nat → Phrase Expr} {e : Expr}
    (h : IsPrimary fits R τ e) : IsPrimary (fun _ => True) R τ e := by
  cases h with
  | number hk _ => exact .number hk trivial
  | float hk => exact .float hk
  | string hk => exact .string hk
  | tensor hk hl => exact .tensor hk hl
  | group h => exact .group h
  | name hk => exact .name hk
  | call hk hl ha hp => exact .call hk hl ha hp

theorem isExpr_of_within {fits : String → Prop} : ∀ (n : Nat) {extra : Nat} {τ : List Token}
    {e : Expr}, ExprWithin fits n extra τ e → IsExpr τ e := by
  intro n
  induction n with
  | zero => exact fun h => h.elim
  | succ n ih =>
    intro extra τ e h
    cases extra with
    | zero =>
      cases h.imp (fun _ _ _ _ _ h => ih h) fun _ _ _ h => ih h with
      | mk hp hg => exact .mk (.mk hp.any hg)
    | succ extra => exact ih h

/-- **An expression nests no deeper than it is long.** -/
theorem within_of_isExpr : ∀ (k : Nat) {τ : List Token} {e : Expr} {n extra : Nat},
    τ.length = k → 2 * τ.length + extra ≤ n → IsExpr τ e →
    ExprWithin (fun _ => True) n extra τ e := by
  intro k
  induction k using Nat.strongRecOn with
  | ind k ih =>
    intro τ e n extra hk hn h
    have h := isExpr_iff.mp h
    have hpos := h.length_pos
    obtain ⟨m, rfl⟩ : ∃ m, n = (m + 1) + extra := ⟨n - extra - 1, by omega⟩
    have hadd := exprWithin_add (fun _ => True) (m + 1) 0 extra
    rw [Nat.zero_add] at hadd
    rw [hadd]
    refine h.imp (fun w σ e hw hσ hR => ?_) fun σ e hσ hR => ?_
    · exact ih σ.length (by omega) rfl (by omega) hR
    · exact ih σ.length (by omega) rfl (by simp only [Reader.Weight.index]; omega) hR

/-! ## Statements and levels -/

theorem isStmt_iff {types : List TypeName} {joins : List Token → TokenKind → Prop} {s : Stmt} :
    IsStmt types joins τ s ↔
      IsStatement types joins (fun _ => IsExpr) (IsStmt types joins) τ s :=
  ⟨fun ⟨h⟩ => h, .mk⟩

theorem stmtWithin_add (types : List TypeName) (fits : String → Prop) (n : Nat) :
    ∀ (extra : Nat), StmtWithin types fits (n + extra) extra = StmtWithin types fits n 0 := by
  intro extra
  induction extra with
  | zero => rfl
  | succ extra ih => exact ih

theorem isStmt_of_within {types : List TypeName} {fits : String → Prop} : ∀ (n : Nat)
    {extra : Nat} {τ : List Token} {s : Stmt}, StmtWithin types fits n extra τ s →
    IsStmt types Joins τ s := by
  intro n
  induction n with
  | zero => exact fun h => h.elim
  | succ n ih =>
    intro extra τ s h
    cases extra with
    | zero =>
      refine .mk (h.imp (fun _ _ h => h) (fun _ _ _ _ h => ?_) fun _ _ _ h => ih h)
      exact isExpr_of_within n h
    | succ extra => exact ih h

/-- **A statement nests no deeper than it is long.** -/
theorem within_of_isStmt {types : List TypeName} : ∀ (k : Nat) {τ : List Token} {s : Stmt}
    {n extra : Nat}, τ.length = k → 2 * τ.length + 1 + extra ≤ n → IsStmt types Joins τ s →
    StmtWithin types (fun _ => True) n extra τ s := by
  intro k
  induction k using Nat.strongRecOn with
  | ind k ih =>
    intro τ s n extra hk hn h
    obtain ⟨m, rfl⟩ : ∃ m, n = (m + 1) + extra := ⟨n - extra - 1, by omega⟩
    rw [stmtWithin_add]
    refine (isStmt_iff.mp h).imp (fun _ _ h => h) (fun w σ e hσ hR => ?_) fun σ s hσ hS => ?_
    · refine within_of_isExpr _ rfl ?_ hR
      rcases hσ with ⟨hw, hσ⟩ | ⟨rfl, rfl⟩ <;> omega
    · exact ih σ.length (by omega) rfl (by simp only [Reader.Weight.block]; omega) hS

/-! ## Brackets -/

inductive Balanced : List Token → Prop
  | nil : Balanced []
  | plain {t : Token} {τ : List Token} : t.kind ≠ .lbracket → t.kind ≠ .rbracket → Balanced τ →
      Balanced (t :: τ)
  | group {l r : Token} {σ τ : List Token} : l.kind = .lbracket → Balanced σ →
      r.kind = .rbracket → Balanced τ → Balanced (l :: (σ ++ r :: τ))

theorem Balanced.append {σ : List Token} (h : Balanced τ) (h' : Balanced σ) :
    Balanced (τ ++ σ) := by
  induction h with
  | nil => exact h'
  | plain h1 h2 _ ih => exact .plain h1 h2 ih
  | group h1 h2 h3 _ _ ih =>
    rw [List.cons_append, List.append_assoc, List.cons_append]
    exact .group h1 h2 h3 ih

theorem Balanced.token {t : Token} {k : TokenKind} (h : t.kind = k) (h1 : k ≠ .lbracket)
    (h2 : k ≠ .rbracket) : Balanced [t] := .plain (by rwa [h]) (by rwa [h]) .nil

theorem balanced_each {k : TokenKind} {R : Phrase α} {as : List α} (h1 : k ≠ .lbracket)
    (h2 : k ≠ .rbracket) (hR : ∀ σ a, R σ a → Balanced σ) (h : IsEach k R τ as) :
    Balanced τ := by
  induction h with
  | nil => exact .nil
  | cons ht ha _ ih => exact .plain (by rwa [ht]) (by rwa [ht]) ((hR _ _ ha).append ih)

theorem balanced_commaList {closer : TokenKind} {R : Phrase α} {as : List α}
    (hR : ∀ σ a, R σ a → Balanced σ) (h : IsCommaList closer R τ as) :
    ∃ σ t, τ = σ ++ [t] ∧ t.kind = closer ∧ Balanced σ := by
  cases h with
  | empty ht => exact ⟨[], _, rfl, ht, .nil⟩
  | items ha hσ ht =>
    have hb := balanced_each (by decide) (by decide) hR hσ
    exact ⟨_, _, (List.append_assoc _ _ _).symm, ht, (hR _ _ ha).append hb⟩

theorem balanced_indexGroups {R : Phrase Expr} {gs : List (Location × List Expr)}
    (hR : ∀ σ e, R σ e → Balanced σ) (h : IsIndexGroups R τ gs) : Balanced τ := by
  induction h with
  | nil => exact .nil
  | @cons t τ σ indices gs ht hl _ ih =>
    obtain ⟨ρ, u, rfl, hu, hρ⟩ := balanced_commaList hR hl
    rw [List.append_assoc, List.singleton_append]
    exact .group ht hρ hu ih

theorem balanced_expression {fits : String → Prop} {R : Nat → Phrase Expr} {S : Phrase Expr}
    {e : Expr} (hR : ∀ w σ e, R w σ e → Balanced σ) (hS : ∀ σ e, S σ e → Balanced σ)
    (h : IsExpression (IsPrimary fits R) S τ e) : Balanced τ := by
  cases h with
  | @mk τ σ head gs hp hg =>
    refine Balanced.append ?_ (balanced_indexGroups hS hg)
    cases hp with
    | number hk _ => exact .token hk (by decide) (by decide)
    | float hk => exact .token hk (by decide) (by decide)
    | string hk => exact .token hk (by decide) (by decide)
    | tensor hk hl =>
      obtain ⟨ρ, u, rfl, hu, hρ⟩ := balanced_commaList (hR _) hl
      exact .group hk hρ hu .nil
    | group h =>
      cases h with
      | mk hl hR' hr =>
        exact (Balanced.token hl (by decide) (by decide)).append
          ((hR _ _ _ hR').append (.token hr (by decide) (by decide)))
    | name hk => exact .token hk (by decide) (by decide)
    | call hk hl ha _ =>
      obtain ⟨ρ, u, rfl, hu, hρ⟩ := balanced_commaList (fun σ a h => by
        cases h with
        | keyword hn he hR' =>
          exact (Balanced.token hn (by decide) (by decide)).append
            ((Balanced.token he (by decide) (by decide)).append (hR _ _ _ hR'))
        | positional hR' => exact hR _ _ _ hR') ha
      exact (Balanced.token hk (by decide) (by decide)).append
        ((Balanced.token hl (by decide) (by decide)).append
          (hρ.append (.token hu (by decide) (by decide))))

theorem balanced_within {fits : String → Prop} : ∀ (n : Nat) {extra : Nat} {τ : List Token}
    {e : Expr}, ExprWithin fits n extra τ e → Balanced τ := by
  intro n
  induction n with
  | zero => exact fun h => h.elim
  | succ n ih =>
    intro extra τ e h
    cases extra with
    | zero => exact balanced_expression (fun _ _ _ h => ih h) (fun _ _ h => ih h) h
    | succ extra => exact ih h

theorem balanced_isExpr {e : Expr} (h : IsExpr τ e) : Balanced τ :=
  balanced_within (2 * τ.length) (within_of_isExpr _ rfl (Nat.le_refl (2 * τ.length + 0)) h)

end SpanScript.Grammar
