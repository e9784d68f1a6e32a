import SpanScript.Proofs.Syntax.Statement

/-!
# The numbers of a phrase

A number token of a phrase stands for a literal in its tree, so what is asked of the
literals is true of all number tokens, however deep they stand.

* `numbersFit_expression`, `numbersFit_statement`: from the parts of a production.
* `numbersFit_exprWithin`, `numbersFit_stmtWithin`: in a phrase of any depth.
-/

namespace SpanScript.Grammar

variable {α : Type} {fits : String → Prop} {τ : List Token}

/-- All number tokens are allowed by `fits`. -/
def NumbersFit (fits : String → Prop) (τ : List Token) : Prop :=
  ∀ t ∈ τ, t.kind = .number → fits t.text

@[simp] theorem numbersFit_nil : NumbersFit fits [] := fun _ h => nomatch h

@[simp] theorem numbersFit_cons {t : Token} :
    NumbersFit fits (t :: τ) ↔ (t.kind = .number → fits t.text) ∧ NumbersFit fits τ :=
  List.forall_mem_cons

@[simp] theorem numbersFit_append {σ : List Token} :
    NumbersFit fits (τ ++ σ) ↔ NumbersFit fits τ ∧ NumbersFit fits σ :=
  List.forall_mem_append

/-- All number tokens of the phrases are allowed. -/
def Fitting (fits : String → Prop) (R : Phrase α) : Prop := ∀ ⦃τ a⦄, R τ a → NumbersFit fits τ

variable {R : Phrase α} {E : Phrase Expr} {B : Phrase Block} {S : Phrase Stmt}

theorem numbersFit_each {k : TokenKind} {as : List α} (hk : k ≠ .number) (hR : Fitting fits R)
    (h : IsEach k R τ as) : NumbersFit fits τ := by
  induction h with
  | nil => exact numbersFit_nil
  | cons ht ha _ ih => simp [ht, hk, hR ha, ih]

theorem numbersFit_commaList {closer : TokenKind} {as : List α} (hk : closer ≠ .number)
    (hR : Fitting fits R) (h : IsCommaList closer R τ as) : NumbersFit fits τ := by
  cases h with
  | empty ht => simp [ht, hk]
  | items ha has ht => simp [ht, hk, hR ha, numbersFit_each (by decide) hR has]

theorem numbersFit_parenthesized {e : Expr} (hE : Fitting fits E)
    (h : IsParenthesized E τ e) : NumbersFit fits τ := by
  cases h with
  | mk hl he hr => simp [hl, hr, hE he]

theorem fitting_argument (hE : Fitting fits E) : Fitting fits (IsArgument E) := by
  intro τ a h
  cases h with
  | keyword hn he h => simp [hn, he, hE h]
  | positional h => exact hE h

theorem numbersFit_indexGroups {gs : List (Location × List Expr)} (hE : Fitting fits E)
    (h : IsIndexGroups E τ gs) : NumbersFit fits τ := by
  induction h with
  | nil => exact numbersFit_nil
  | cons ht hl _ ih => simp [ht, numbersFit_commaList (by decide) hE hl, ih]

theorem numbersFit_primary {R : Nat → Phrase Expr} {e : Expr} (hR : ∀ w, Fitting fits (R w))
    (h : IsPrimary fits R τ e) : NumbersFit fits τ := by
  cases h with
  | number _ hf => simp [hf]
  | float hk => simp [hk]
  | string hk => simp [hk]
  | tensor hk hl => simp [hk, numbersFit_commaList (by decide) (hR _) hl]
  | group h => exact numbersFit_parenthesized (hR _) h
  | name hk => simp [hk]
  | call hk hl ha _ => simp [hk, hl, numbersFit_commaList (by decide) (fitting_argument (hR _)) ha]

theorem numbersFit_expression {R : Nat → Phrase Expr} {e : Expr} (hR : ∀ w, Fitting fits (R w))
    (hE : Fitting fits E) (h : IsExpression (IsPrimary fits R) E τ e) : NumbersFit fits τ := by
  cases h with
  | mk hp hg => simp [numbersFit_primary hR hp, numbersFit_indexGroups hE hg]

theorem fitting_param {types : List TypeName} (hE : Fitting fits E) :
    Fitting fits (IsParam types E) := by
  intro τ p h
  cases h with
  | plain h1 _ h2 h3 => simp [h1, h2, h3]
  | default h1 _ h2 h3 h4 he => simp [h1, h2, h3, h4, hE he]

section

variable {joins : List Token → TokenKind → Prop}

theorem numbersFit_items {ss : List Stmt} (hS : Fitting fits S) (h : IsItems joins S τ ss) :
    NumbersFit fits τ := by
  induction h with
  | close ht => simp [ht]
  | newline ht _ ih => simp [ht, ih]
  | stmt hs _ _ ih => exact numbersFit_append.mpr ⟨hS hs, ih⟩

theorem fitting_block (hS : Fitting fits S) : Fitting fits (IsBlock joins S) := by
  intro τ b h
  cases h with
  | mk hl h => simp [hl, numbersFit_items hS h]

theorem fitting_guarded (hE : Fitting fits E) (hB : Fitting fits B) :
    Fitting fits (IsGuarded E B) := by
  intro τ b h
  cases h with
  | mk he hb => simp [numbersFit_parenthesized hE he, hB hb]

theorem numbersFit_statement {types : List TypeName} {R : Nat → Phrase Expr} {s : Stmt}
    (hR : ∀ w, Fitting fits (R w)) (hS : Fitting fits S) (h : IsStatement types joins R S τ s) :
    NumbersFit fits τ := by
  have hB : Fitting fits (IsBlock joins S) := fitting_block hS
  have hG : ∀ w, Fitting fits (IsGuarded (R w) (IsBlock joins S)) :=
    fun w => fitting_guarded (hR w) hB
  cases h with
  | declaration h1 _ h2 h3 h4 he => simp [h1, h2, h3, h4, hR _ he]
  | assignment h1 h2 he => simp [h1, h2, hR _ he]
  | cellAssignment h1 hg h2 he => simp [h1, h2, numbersFit_indexGroups (hR _) hg, hR _ he]
  | choice hk hb hbs => simp [hk, hG _ hb, numbersFit_each (by decide) (hG _) hbs]
  | choiceElse hk hb hbs ho hc =>
    simp [hk, ho, hG _ hb, numbersFit_each (by decide) (hG _) hbs, hB hc]
  | whileLoop hk he hb => simp [hk, numbersFit_parenthesized (hR _) he, hB hb]
  | forLoop hk hl hc hcomma he hr hb => simp [hk, hl, hc, hcomma, hr, hR _ he, hB hb]
  | define hk hn hl hps _ hc ht _ hb =>
    simp [hk, hn, hl, hc, ht, numbersFit_commaList (by decide) (fitting_param (hR _)) hps, hB hb]
  | returnNothing hk hl hr => simp [hk, hl, hr]
  | returnValue hk he => simp [hk, numbersFit_parenthesized (hR _) he]
  | breakLoops hk he => simp [hk, numbersFit_parenthesized (hR _) he]
  | continueLoop hk hl hr => simp [hk, hl, hr]
  | evaluate he => exact hR _ he

end

/-! ## At any depth -/

theorem numbersFit_exprWithin : ∀ n extra : Nat, Fitting fits (ExprWithin fits n extra) := by
  intro n
  induction n with
  | zero => exact fun _ _ _ h => h.elim
  | succ n ih =>
    intro extra τ e h
    cases extra with
    | zero => exact numbersFit_expression ih (ih _) h
    | succ extra => exact ih extra h

/-- **Every number token of a statement is allowed** that can be read with literals that
are. -/
theorem numbersFit_stmtWithin (types : List TypeName) : ∀ n extra : Nat,
    Fitting fits (StmtWithin types fits n extra) := by
  intro n
  induction n with
  | zero => exact fun _ _ _ h => h.elim
  | succ n ih =>
    intro extra τ s h
    cases extra with
    | zero => exact numbersFit_statement (numbersFit_exprWithin n) (ih _) h
    | succ extra => exact ih extra h

end SpanScript.Grammar
