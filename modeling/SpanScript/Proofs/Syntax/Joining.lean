import SpanScript.Proofs.Syntax.Block

/-!
# Neighbours that are read as one

In a block `x [1]` can be taken for two statements, or for one.  Whatever the
grammar takes for statements can also be taken so that no statement is left
before a token that goes on with it: two such neighbours make one statement.

* `exists_extended`: an expression, and one that begins with a token that goes on
  with it, are an expression together.
* `exists_joined`: the tokens of a statement are a statement in which neighbours
  are taken together.
-/

namespace SpanScript.Grammar

open Reader

variable {α : Type} {types : List TypeName} {τ σ : List Token}

/-! ## Expressions -/

theorem IsIndexGroups.append {R : Phrase Expr} {gs hs : List (Location × List Expr)}
    (h : IsIndexGroups R τ gs) (h' : IsIndexGroups R σ hs) :
    IsIndexGroups R (τ ++ σ) (gs ++ hs) := by
  induction h with
  | nil => exact h'
  | cons ht hl _ ih =>
    rw [List.cons_append, List.append_assoc]
    exact .cons ht hl ih

/-- An expression that begins with a bracket is a list of items with indices. -/
theorem tensor_of_head {t : Token} {e : Expr} (ht : t.kind = .lbracket) (h : IsExpr (t :: σ) e) :
    ∃ gs, IsIndexGroups IsExpr (t :: σ) gs := by
  generalize hρ : t :: σ = ρ at h
  cases isExpr_iff.mp h with
  | @mk τ₁ τ₂ head gs hp hg =>
    cases hp with
    | tensor hk hl => exact ⟨_, .cons hk hl hg⟩
    | group hl =>
      cases hl with
      | mk hl _ _ => obtain rfl := (List.cons.inj hρ).1; rw [ht] at hl; cases hl
    | number hk => obtain rfl := (List.cons.inj hρ).1; rw [ht] at hk; cases hk
    | float hk => obtain rfl := (List.cons.inj hρ).1; rw [ht] at hk; cases hk
    | string hk => obtain rfl := (List.cons.inj hρ).1; rw [ht] at hk; cases hk
    | name hk => obtain rfl := (List.cons.inj hρ).1; rw [ht] at hk; cases hk
    | call hk => obtain rfl := (List.cons.inj hρ).1; rw [ht] at hk; cases hk

/-- An expression that begins with a parenthesis is an argument with indices. -/
theorem group_of_head {t : Token} {e : Expr} (ht : t.kind = .lparen) (h : IsExpr (t :: σ) e) :
    ∃ τ₁ τ₂ e' gs, σ = τ₁ ++ τ₂ ∧ IsCommaList .rparen (IsArgument IsExpr) τ₁ [.positional e'] ∧
      IsIndexGroups IsExpr τ₂ gs := by
  generalize hρ : t :: σ = ρ at h
  cases isExpr_iff.mp h with
  | @mk τ₁ τ₂ head gs hp hg =>
    cases hp with
    | tensor hk => obtain rfl := (List.cons.inj hρ).1; rw [ht] at hk; cases hk
    | group hl =>
      cases hl with
      | @mk l r τ e' hl hR hr =>
        obtain ⟨-, rfl⟩ := List.cons.inj hρ
        exact ⟨_, _, _, _, rfl, .items (σ := []) (.positional hR) .nil hr, hg⟩
    | number hk => obtain rfl := (List.cons.inj hρ).1; rw [ht] at hk; cases hk
    | float hk => obtain rfl := (List.cons.inj hρ).1; rw [ht] at hk; cases hk
    | string hk => obtain rfl := (List.cons.inj hρ).1; rw [ht] at hk; cases hk
    | name hk => obtain rfl := (List.cons.inj hρ).1; rw [ht] at hk; cases hk
    | call hk => obtain rfl := (List.cons.inj hρ).1; rw [ht] at hk; cases hk

/-- An expression that ends with a name is that name. -/
theorem name_of_endsWith {e : Expr} (h : IsExpr τ e) (hi : EndsWith .ident τ) :
    ∃ t, τ = [t] ∧ t.kind = .ident := by
  cases isExpr_iff.mp h with
  | @mk τ₁ τ₂ head gs hp hg =>
    by_cases hτ : τ₂ = []
    · subst hτ
      rw [List.append_nil] at hi ⊢
      cases hp with
      | number hk => exact absurd (endsWith_unique hi ⟨_, rfl, hk⟩) (by decide)
      | float hk => exact absurd (endsWith_unique hi ⟨_, rfl, hk⟩) (by decide)
      | string hk => exact absurd (endsWith_unique hi ⟨_, rfl, hk⟩) (by decide)
      | @tensor t _ _ hk hl =>
        obtain ⟨hne, hend⟩ := endsWith_commaList hl
        exact absurd (endsWith_unique hi ((endsWith_append (τ := [t]) hne).mpr hend)) (by decide)
      | group hl => exact absurd (endsWith_unique hi (endsWith_parenthesized hl)) (by decide)
      | name hk => exact ⟨_, rfl, hk⟩
      | @call t l _ _ hk hl ha _ =>
        obtain ⟨hne, hend⟩ := endsWith_commaList ha
        exact absurd (endsWith_unique hi ((endsWith_append (τ := [t, l]) hne).mpr hend))
          (by decide)
    · rw [endsWith_append hτ] at hi
      exact absurd (endsWith_unique hi (indexGroups_end hg hτ)) (by decide)

/-- **What goes on with an expression makes one expression of two.** -/
theorem exists_extended {t : Token} {e e' : Expr} (h : IsExpr τ e) (h' : IsExpr (t :: σ) e')
    (hx : Extends τ t.kind) : ∃ f, IsExpr (τ ++ t :: σ) f := by
  rcases hx with ht | ⟨ht, hi⟩
  · obtain ⟨hs, hg'⟩ := tensor_of_head ht h'
    cases isExpr_iff.mp h with
    | @mk τ₁ τ₂ head gs hp hg =>
      have hf : IsExpr (τ₁ ++ (τ₂ ++ t :: σ)) (indexed head (gs ++ hs)) :=
        .mk (.mk hp (hg.append hg'))
      rw [← List.append_assoc] at hf
      exact ⟨_, hf⟩
  · obtain ⟨u, rfl, hu⟩ := name_of_endsWith h hi
    obtain ⟨τ₁, τ₂, e₁, gs, rfl, ha, hg⟩ := group_of_head ht h'
    exact ⟨_, .mk (.mk (τ := u :: t :: τ₁) (.call hu ht ha (List.pairwise_singleton _ _)) hg)⟩

/-! ## Statements -/

/-- A statement that begins as an expression that is not a name is one. -/
theorem expr_of_head {joins : List Token → TokenKind → Prop} {S : Phrase Stmt} {t : Token}
    {s : Stmt} (ht : t.kind = .lbracket ∨ t.kind = .lparen)
    (h : IsStatement types joins (fun _ => IsExpr) S (t :: σ) s) : ∃ e, IsExpr (t :: σ) e := by
  have hne : ∀ {k : TokenKind}, t.kind = k → k ≠ .lbracket → k ≠ .lparen → False := by
    rintro k rfl h1 h2
    exact ht.elim h1 h2
  cases h with
  | declaration hk => exact (hne hk (by decide) (by decide)).elim
  | assignment hk => exact (hne hk (by decide) (by decide)).elim
  | cellAssignment hk => exact (hne hk (by decide) (by decide)).elim
  | choice hk => exact (hne hk (by decide) (by decide)).elim
  | choiceElse hk => exact (hne hk (by decide) (by decide)).elim
  | whileLoop hk => exact (hne hk (by decide) (by decide)).elim
  | forLoop hk => exact (hne hk (by decide) (by decide)).elim
  | define hk => exact (hne hk (by decide) (by decide)).elim
  | returnNothing hk => exact (hne hk (by decide) (by decide)).elim
  | returnValue hk => exact (hne hk (by decide) (by decide)).elim
  | breakLoops hk => exact (hne hk (by decide) (by decide)).elim
  | continueLoop hk => exact (hne hk (by decide) (by decide)).elim
  | evaluate h => exact ⟨_, h⟩

/-- What goes on with the last expression of a statement makes one statement of
two. -/
theorem exists_extended_statement {joins : List Token → TokenKind → Prop} {S : Phrase Stmt}
    {t : Token} {s : Stmt} {e' : Expr} (h : IsStatement types joins (fun _ => IsExpr) S τ s)
    (h' : IsExpr (t :: σ) e') (hx : Joins τ t.kind) :
    ∃ s', IsStatement types joins (fun _ => IsExpr) S (τ ++ t :: σ) s' := by
  have hkeyword : ∀ {u : Token} {w : Keyword} {ρ : List Token}, u.kind = .keyword w →
      τ = u :: ρ → False := by
    rintro u w ρ hu rfl
    exact not_joins_keyword hu _ hx
  have hlast : ∀ (before : List Token) {ρ : List Token} {e : Expr}, τ = before ++ ρ →
      IsExpr ρ e → ∃ f, IsExpr (ρ ++ t :: σ) f := by
    rintro before ρ e rfl he
    have hpos := (isExpr_iff.mp he).length_pos
    exact exists_extended he h' ((extends_append (List.length_pos_iff.mp hpos)).mp hx.1)
  cases h with
  | @declaration type colon name equals τ e h1 h2 h3 h4 h5 he =>
    obtain ⟨f, hf⟩ := hlast [type, colon, name, equals] rfl he
    exact ⟨_, .declaration h1 h2 h3 h4 h5 hf⟩
  | @assignment name equals τ e h1 h2 he =>
    obtain ⟨f, hf⟩ := hlast [name, equals] rfl he
    exact ⟨_, .assignment h1 h2 hf⟩
  | @cellAssignment name equals τ ρ g gs e h1 hg h2 he =>
    obtain ⟨f, hf⟩ := hlast (name :: (τ ++ [equals])) (by simp) he
    rw [List.cons_append, List.append_assoc, List.cons_append]
    exact ⟨_, .cellAssignment h1 hg h2 hf⟩
  | choice hk => exact (hkeyword hk rfl).elim
  | choiceElse hk => exact (hkeyword hk rfl).elim
  | whileLoop hk => exact (hkeyword hk rfl).elim
  | forLoop hk => exact (hkeyword hk rfl).elim
  | define hk => exact (hkeyword hk rfl).elim
  | returnNothing hk => exact (hkeyword hk rfl).elim
  | returnValue hk => exact (hkeyword hk rfl).elim
  | breakLoops hk => exact (hkeyword hk rfl).elim
  | continueLoop hk => exact (hkeyword hk rfl).elim
  | evaluate he =>
    obtain ⟨f, hf⟩ := hlast [] rfl he
    exact ⟨_, .evaluate hf⟩

/-! ## Blocks -/

/-- A statement before the statements of a block, taken together with the first of
them if it goes on. -/
theorem exists_items_cons {s : Stmt} {ss : List Stmt} (h : IsStmt types Joins τ s)
    (h' : IsItems Joins (IsStmt types Joins) σ ss) :
    ∃ ss', IsItems Joins (IsStmt types Joins) (τ ++ σ) ss' := by
  obtain ⟨t, ρ, rfl⟩ : ∃ t ρ, σ = t :: ρ := by
    cases h' with
    | close => exact ⟨_, _, rfl⟩
    | newline => exact ⟨_, _, rfl⟩
    | @stmt t τ σ => cases τ <;> exact ⟨_, _, rfl⟩
  by_cases hj : Joins τ t.kind
  · have ht : t.kind = .lbracket ∨ t.kind = .lparen := hj.1.imp_right fun hx => hx.1
    generalize hσ : t :: ρ = σ at h'
    cases h' with
    | close hk =>
      obtain rfl := (List.cons.inj hσ).1
      rcases ht with ht | ht <;> rw [ht] at hk <;> cases hk
    | newline hk =>
      obtain rfl := (List.cons.inj hσ).1
      rcases ht with ht | ht <;> rw [ht] at hk <;> cases hk
    | @stmt u τ₂ σ₂ s₂ ss₂ hs₂ hn hss =>
      have hs₂ := isStmt_iff.mp hs₂
      cases τ₂ with
      | nil =>
        -- no statement is empty
        cases hs₂ with
        | evaluate he =>
          have := (isExpr_iff.mp he).length_pos
          exact absurd this (Nat.lt_irrefl _)
      | cons t₂ τ₂ =>
        obtain ⟨rfl, rfl⟩ := List.cons.inj hσ
        obtain ⟨e, he⟩ := expr_of_head ht hs₂
        obtain ⟨s', hs'⟩ := exists_extended_statement (isStmt_iff.mp h) he hj
        refine ⟨s' :: ss₂, ?_⟩
        rw [← List.append_assoc]
        refine .stmt (.mk hs') (fun hx => hn ?_) hss
        -- what goes on with the two goes on with the second
        have hkw : ¬ BeginsWithKeyword (t :: τ₂) := by
          rintro ⟨v, hv, w, hw⟩
          obtain rfl : t = v := by simpa using hv
          rcases ht with ht | ht <;> rw [ht] at hw <;> cases hw
        exact ⟨(extends_append (by simp)).mp hx.1, hkw⟩
  · exact ⟨_, .stmt h hj h'⟩

theorem exists_joined_items {S : Phrase Stmt} {ss : List Stmt} (h : IsItems Never S τ ss) :
    (∀ σ s, σ.length < τ.length → S σ s → ∃ s', IsStmt types Joins σ s') →
    ∃ ss', IsItems Joins (IsStmt types Joins) τ ss' := by
  induction h with
  | close ht => exact fun _ => ⟨_, .close ht⟩
  | newline ht _ ih =>
    intro hi
    obtain ⟨ss', h'⟩ := ih fun σ s hσ => hi σ s (Nat.lt_succ_of_lt hσ)
    exact ⟨ss', .newline ht h'⟩
  | @stmt t τ σ s ss hs _ _ ih =>
    intro hi
    obtain ⟨s', hs'⟩ := hi _ _ (by simp) hs
    obtain ⟨ss', h'⟩ := ih fun ρ s hρ => hi ρ s (by rw [List.length_append]; omega)
    exact exists_items_cons hs' h'

theorem exists_joined_block {S : Phrase Stmt} {b : Block} (h : IsBlock Never S τ b)
    (hi : ∀ σ s, σ.length + 2 ≤ τ.length → S σ s → ∃ s', IsStmt types Joins σ s') :
    ∃ b', IsBlock Joins (IsStmt types Joins) τ b' := by
  cases h with
  | mk hl hR =>
    obtain ⟨ss', h'⟩ := exists_joined_items hR fun σ s hσ => hi σ s (Nat.succ_le_succ hσ)
    exact ⟨_, .mk hl h'⟩

theorem exists_joined_guarded {R : Phrase Expr} {S : Phrase Stmt} {b : Branch}
    (h : IsGuarded R (IsBlock Never S) τ b)
    (hi : ∀ σ s, σ.length + 2 ≤ τ.length → S σ s → ∃ s', IsStmt types Joins σ s') :
    ∃ b', IsGuarded R (IsBlock Joins (IsStmt types Joins)) τ b' := by
  cases h with
  | mk ht hb =>
    rw [List.length_append] at hi
    obtain ⟨b', h'⟩ := exists_joined_block hb fun σ s hσ => hi σ s (by omega)
    exact ⟨_, .mk ht h'⟩

theorem exists_each {k : TokenKind} {R R' : Phrase α} {as : List α} (h : IsEach k R τ as) :
    (∀ σ a, σ.length ≤ τ.length → R σ a → ∃ a', R' σ a') → ∃ as', IsEach k R' τ as' := by
  induction h with
  | nil => exact fun _ => ⟨_, .nil⟩
  | @cons t τ σ a as ht ha _ ih =>
    intro hi
    obtain ⟨a', ha'⟩ := hi τ a (by simp only [List.length_cons, List.length_append]; omega) ha
    obtain ⟨as', h'⟩ := ih fun ρ b hρ => hi ρ b (by
      simp only [List.length_cons, List.length_append]; omega)
    exact ⟨_, .cons ht ha' h'⟩

theorem exists_joined_statement {S : Phrase Stmt} {s : Stmt}
    (h : IsStatement types Never (fun _ => IsExpr) S τ s)
    (hi : ∀ σ s, σ.length + 2 ≤ τ.length → S σ s → ∃ s', IsStmt types Joins σ s') :
    ∃ s', IsStatement types Joins (fun _ => IsExpr) (IsStmt types Joins) τ s' := by
  cases h with
  | declaration h1 h2 h3 h4 h5 he => exact ⟨_, .declaration h1 h2 h3 h4 h5 he⟩
  | assignment h1 h2 he => exact ⟨_, .assignment h1 h2 he⟩
  | cellAssignment h1 hg h2 he => exact ⟨_, .cellAssignment h1 hg h2 he⟩
  | choice hk hb hbs =>
    simp only [List.length_cons, List.length_append] at hi
    obtain ⟨b', hb'⟩ := exists_joined_guarded hb fun σ s hσ => hi σ s (by omega)
    obtain ⟨bs', hbs'⟩ := exists_each hbs fun σ b hσ h =>
      exists_joined_guarded h fun ρ s hρ => hi ρ s (by omega)
    exact ⟨_, .choice hk hb' hbs'⟩
  | choiceElse hk hb hbs ho hc =>
    simp only [List.length_cons, List.length_append] at hi
    obtain ⟨b', hb'⟩ := exists_joined_guarded hb fun σ s hσ => hi σ s (by omega)
    obtain ⟨bs', hbs'⟩ := exists_each hbs fun σ b hσ h =>
      exists_joined_guarded h fun ρ s hρ => hi ρ s (by omega)
    obtain ⟨c', hc'⟩ := exists_joined_block hc fun σ s hσ => hi σ s (by omega)
    exact ⟨_, .choiceElse hk hb' hbs' ho hc'⟩
  | whileLoop hk he hb =>
    simp only [List.length_cons, List.length_append] at hi
    obtain ⟨b', hb'⟩ := exists_joined_block hb fun σ s hσ => hi σ s (by omega)
    exact ⟨_, .whileLoop hk he hb'⟩
  | forLoop hk hl hc hcomma he hr hb =>
    simp only [List.length_cons, List.length_append] at hi
    obtain ⟨b', hb'⟩ := exists_joined_block hb fun σ s hσ => hi σ s (by omega)
    exact ⟨_, .forLoop hk hl hc hcomma he hr hb'⟩
  | define hk hn hl hps hp hc ht htt hb =>
    simp only [List.length_cons, List.length_append] at hi
    obtain ⟨b', hb'⟩ := exists_joined_block hb fun σ s hσ => hi σ s (by omega)
    exact ⟨_, .define hk hn hl hps hp hc ht htt hb'⟩
  | returnNothing hk hl hr => exact ⟨_, .returnNothing hk hl hr⟩
  | returnValue hk he => exact ⟨_, .returnValue hk he⟩
  | breakLoops hk he => exact ⟨_, .breakLoops hk he⟩
  | continueLoop hk hl hr => exact ⟨_, .continueLoop hk hl hr⟩
  | evaluate he => exact ⟨_, .evaluate he⟩

/-- **Neighbours can be taken together**: the tokens of a statement are one in which
no statement is left before a token that goes on with it. -/
theorem exists_joined : ∀ (k : Nat) {τ : List Token} {s : Stmt}, τ.length = k →
    IsStmt types Never τ s → ∃ s', IsStmt types Joins τ s' := by
  intro k
  induction k using Nat.strongRecOn with
  | ind k ih =>
    intro τ s hk h
    obtain ⟨s', hs'⟩ := exists_joined_statement (isStmt_iff.mp h)
      fun σ s hσ hs => ih σ.length (by omega) rfl hs
    exact ⟨s', .mk hs'⟩

/-- What is taken together is a statement of the grammar. -/
theorem isStmt_of_joined : ∀ (k : Nat) {τ : List Token} {s : Stmt}, τ.length = k →
    IsStmt types Joins τ s → IsStmt types Never τ s := by
  intro k
  induction k using Nat.strongRecOn with
  | ind k ih =>
    intro τ s hk h
    exact .mk ((isStmt_iff.mp h).imp (fun σ k hx => (not_never σ k hx).elim)
      (fun _ _ _ _ h => h) fun σ s hσ hs => ih σ.length (by omega) rfl hs)

end SpanScript.Grammar
