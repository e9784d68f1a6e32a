import SpanScript.Proofs.Syntax.Run
import SpanScript.Proofs.Syntax.Grammar

/-!
# Readers of phrases

`Parses P J F m R`: the reader `m` reads the phrases `R`, and it reads as much as
it can.  It gives only what `R` allows, and stops before no token that goes on
with what it took (`J`); and it takes every phrase of `R` behind which no such
token comes (`F`), if it does not fail for a reason `P` that a token has.

* `Parses.bind`, `Parses.bind_last`: such readers in a chain.
* `parenthesized_parses`, `each_parses`, `commaList_parses`: what is around expressions.
-/

namespace SpanScript.Reader

open Grammar

variable {α β : Type}

/-- The reader `m` reads the phrases `R`. -/
structure Parses (P : Token → ParseFault → Prop) (J F : List Token → TokenKind → Prop)
    (m : Reader α) (R : Phrase α) : Prop where
  sound : ∀ {s s' : ReadState} {a : α}, Ready s → Gives m s a s' →
    ∃ τ, R τ a ∧ Consumes s τ s' ∧ ∀ t, s'.cursor.Faces t → ¬ J τ t.kind
  complete : ∀ {s : ReadState} {τ : List Token} {a : α} {c : Cursor}, At s τ c → R τ a →
    (∃ t, c.Faces t ∧ ¬ F τ t.kind) → Arrives P m s τ a

/-- The token that begins a phrase. -/
def Begins (p : TokenKind → Prop) (R : Phrase α) : Prop :=
  ∀ τ a, R τ a → ∃ t σ, τ = t :: σ ∧ p t.kind

variable {P : Token → ParseFault → Prop} {J F : List Token → TokenKind → Prop}
  {m : Reader α} {R : Phrase α} {s : ReadState} {τ σ : List Token} {c : Cursor} {a : α} {b : β}

namespace Parses

theorem bind {f : α → Reader β} (hm : Parses P J F m R) (h : At s (τ ++ σ) c) (hR : R τ a)
    (hF : Follow c (fun k => ¬ F τ k) σ) (hf : ∀ s', At s' σ c → Arrives P (f a) s' σ b) :
    Arrives P (m >>= f) s (τ ++ σ) b := by
  obtain ⟨d, h1, h2⟩ := h.take
  exact Arrives.bind h (hm.complete h1 hR (hF.faces h2)) hf

theorem bind_last {f : α → Reader β} (hm : Parses P J F m R) (h : At s τ c) (hR : R τ a)
    (hF : ∃ t, c.Faces t ∧ ¬ F τ t.kind) (hf : ∀ s', At s' [] c → Arrives P (f a) s' [] b) :
    Arrives P (m >>= f) s τ b := Arrives.bind_last h (hm.complete h hR hF) hf

end Parses

/-! ## Parentheses -/

/-- An expression in parentheses is taken whatever comes behind it. -/
theorem arrives_parenthesized {m : Reader Expr} {R : Phrase Expr} {e : Expr}
    (hm : Parses P J F m R) (hF : ∀ τ, ¬ F τ .rparen) (h : At s τ c)
    (hR : IsParenthesized R τ e) : Arrives P (parenthesized m) s τ e := by
  cases hR with
  | @mk l r τ e hl hR hr =>
    refine .expect_bind h hl fun s₁ h₁ => ?_
    refine hm.bind h₁ hR (by rw [Follow, hr]; exact hF τ) fun s₂ h₂ => ?_
    exact .expect_bind h₂ hr fun s₃ h₃ => .pure

theorem parenthesized_parses {m : Reader Expr} {R : Phrase Expr} (hm : Parses P J F m R)
    (hF : ∀ τ, ¬ F τ .rparen) : Parses P Never Never (parenthesized m) (IsParenthesized R) where
  sound := by
    intro s s' a hs h
    obtain ⟨l, s₁, h1, h⟩ := gives_bind.mp h
    obtain ⟨hl, c₁⟩ := gives_expect (by decide) h1
    obtain ⟨e, s₂, h2, h⟩ := gives_bind.mp h
    obtain ⟨τ, hR, c₂, -⟩ := hm.sound (c₁.ready hs) h2
    obtain ⟨r, s₃, h3, h⟩ := gives_bind.mp h
    obtain ⟨hr, c₃⟩ := gives_expect (by decide) h3
    obtain ⟨rfl, rfl⟩ := gives_pure.mp h
    exact ⟨_, .mk hl hR hr, c₁.trans (c₂.trans c₃), fun _ _ => not_never _ _⟩
  complete h hR _ := arrives_parenthesized hm hF h hR

/-! ## Lists -/

theorem gives_after {k : TokenKind} {s s' : ReadState} {o : Option α} (hk : k ≠ .eof)
    (h : Gives (after k m) s o s') :
    (o = none ∧ Consumes s [] s' ∧ ∃ t, s.cursor.Faces t ∧ t.kind ≠ k) ∨
    ∃ a t s₁, o = some a ∧ t.kind = k ∧ Consumes s [t] s₁ ∧ Gives m s₁ a s' := by
  obtain ⟨b, s₁, h1, h⟩ := gives_bind.mp h
  rcases gives_accept hk h1 with ⟨rfl, t, ht, c₁⟩ | ⟨rfl, c₁, hn⟩
  · rw [if_pos rfl] at h
    obtain ⟨a, s₂, h2, h⟩ := gives_bind.mp h
    obtain ⟨rfl, rfl⟩ := gives_pure.mp h
    exact .inr ⟨a, t, s₁, rfl, ht, c₁, h2⟩
  · rw [if_neg Bool.false_ne_true] at h
    obtain ⟨rfl, rfl⟩ := gives_pure.mp h
    exact .inl ⟨rfl, c₁, hn⟩

theorem after_advances {k : TokenKind} (hk : k ≠ .eof) (hm : Parses P J F m R) :
    Advances (after k m) := by
  intro s s' a hs h
  rcases gives_after hk h with ⟨h, -⟩ | ⟨_, t, s₁, -, -, c₁, h2⟩
  · cases h
  · obtain ⟨τ, -, c₂, -⟩ := hm.sound (c₁.ready hs) h2
    exact ⟨[t] ++ τ, by simp, c₁.trans c₂⟩

theorem arrives_after_none {k : TokenKind} (h : At s [] c) (hn : ∃ t, c.Faces t ∧ t.kind ≠ k) :
    Arrives P (after k m) s [] none :=
  .accept_bind_false h hn fun _ _ => .pure

theorem arrives_after_some {k : TokenKind} {t : Token} (hm : Parses P J F m R)
    (h : At s (t :: τ) c) (ht : t.kind = k) (hR : R τ a) (hF : ∃ u, c.Faces u ∧ ¬ F τ u.kind) :
    Arrives P (after k m) s (t :: τ) (some a) :=
  .accept_bind_true h ht fun _ h₁ => hm.bind_last h₁ hR hF fun _ _ => .pure

/-- Another item, or what goes on with the last one. -/
def Again (k : TokenKind) (F : List Token → TokenKind → Prop) (_ : List Token) (k' : TokenKind) :
    Prop := k' = k ∨ ∃ σ, F σ k'

theorem each_parses {k : TokenKind} (hk : k ≠ .eof) (hm : Parses P J F m R) (hF : ∀ τ, ¬ F τ k) :
    Parses P (fun _ k' => k' = k) (Again k F) (many (after k m)) (IsEach k R) where
  sound := by
    intro s s' as hs h
    refine many_induction (after_advances hk hm) (motive := fun s as s' =>
      ∃ τ, IsEach k R τ as ∧ Consumes s τ s' ∧ ∀ t, s'.cursor.Faces t → t.kind ≠ k)
      ?_ ?_ _ (Nat.lt_succ_self _) hs h
    · intro s s' hs h
      rcases gives_after hk h with ⟨-, hc, t, ht, hn⟩ | ⟨_, _, _, h, -⟩
      · refine ⟨[], .nil, hc, fun u hu => ?_⟩
        obtain rfl := (hc.faces ht).unique hu
        exact hn
      · cases h
    · rintro s s₁ s' a as hs h ⟨σ, hσ, hc, hn⟩
      rcases gives_after hk h with ⟨h, -⟩ | ⟨_, t, s₂, h, ht, c₁, h2⟩
      · cases h
      · cases h
        obtain ⟨τ, hR, c₂, -⟩ := hm.sound (c₁.ready hs) h2
        exact ⟨([t] ++ τ) ++ σ, .cons ht hR hσ, (c₁.trans c₂).trans hc, hn⟩
  complete := by
    intro s τ as c h hR
    rintro ⟨u, hu, hn⟩
    induction hR generalizing s with
    | nil =>
      refine .many_stop (after_advances hk hm) h (arrives_after_none h ⟨u, hu, ?_⟩)
      exact fun hx => hn (.inl hx)
    | @cons t τ σ a as ht ha hσ ih =>
      rw [← List.cons_append] at h ⊢
      obtain ⟨d, h1, h2⟩ := h.take
      have hnext : Follow c (fun k => ¬ F τ k) σ := by
        cases hσ with
        | nil => exact ⟨u, hu, fun hx => hn (.inr ⟨_, hx⟩)⟩
        | cons hv _ _ => rw [Follow, hv]; exact hF τ
      refine .many_turn (after_advances hk hm) h ?_ fun s' h' => ih h' hn
      exact arrives_after_some hm h1 ht ha (hnext.faces h2)

theorem commaList_parses {closer : TokenKind} {item : Reader α} (hi : Parses P J F item R)
    (he : closer ≠ .eof) (hne : closer ≠ .comma) (hF : ∀ τ, ¬ F τ .comma ∧ ¬ F τ closer)
    (hb : Begins (· ≠ closer) R) :
    Parses P Never Never (commaList closer item) (IsCommaList closer R) where
  sound := by
    intro s s' as hs h
    obtain ⟨_, s₁, h1, h⟩ := gives_bind.mp h
    rcases gives_accept he h1 with ⟨rfl, t, ht, c₁⟩ | ⟨rfl, c₁, -⟩
    · rw [if_pos rfl] at h
      obtain ⟨rfl, rfl⟩ := gives_pure.mp h
      exact ⟨[t], .empty ht, c₁, fun _ _ => not_never _ _⟩
    · rw [if_neg Bool.false_ne_true] at h
      obtain ⟨a, s₂, h2, h⟩ := gives_bind.mp h
      obtain ⟨τ, hR, c₂, -⟩ := hi.sound (c₁.ready hs) h2
      obtain ⟨rest, s₃, h3, h⟩ := gives_bind.mp h
      have hes := each_parses (by decide) hi fun τ => (hF τ).1
      obtain ⟨σ, hσ, c₃, -⟩ := hes.sound (c₂.ready (c₁.ready hs)) h3
      obtain ⟨t, s₄, h4, h⟩ := gives_bind.mp h
      obtain ⟨ht, c₄⟩ := gives_expect he h4
      obtain ⟨rfl, rfl⟩ := gives_pure.mp h
      exact ⟨τ ++ (σ ++ [t]), .items hR hσ ht, c₁.trans (c₂.trans (c₃.trans c₄)),
        fun _ _ => not_never _ _⟩
  complete := by
    intro s τ as c h hR _
    cases hR with
    | empty ht => exact .accept_bind_true h ht fun _ _ => .pure
    | @items t τ σ a as ha hσ ht =>
      obtain ⟨u, τ', rfl, hu⟩ := hb _ _ ha
      refine .accept_bind_false h hu fun s₁ h₁ => ?_
      refine hi.bind h₁ ha ?_ fun s₂ h₂ => ?_
      · cases hσ with
        | nil => show ¬ F _ t.kind; rw [ht]; exact (hF _).2
        | cons hv _ _ => show ¬ F _ _; rw [hv]; exact (hF _).1
      refine (each_parses (by decide) hi fun τ => (hF τ).1).bind h₂ hσ ?_ fun s₃ h₃ => ?_
      · show ¬ Again _ _ _ t.kind
        rw [ht]
        rintro (hx | ⟨ρ, hx⟩)
        · exact hne hx
        · exact (hF ρ).2 hx
      exact .expect_bind h₃ ht fun _ _ => .pure

/-! ## Ends of phrases -/

theorem endsWith_append {k : TokenKind} (hσ : σ ≠ []) :
    EndsWith k (τ ++ σ) ↔ EndsWith k σ := by
  unfold EndsWith
  rw [List.getLast?_append_of_ne_nil _ hσ]

theorem endsWith_unique {k k' : TokenKind} (h : EndsWith k τ) (h' : EndsWith k' τ) : k = k' := by
  obtain ⟨t, ht, rfl⟩ := h
  obtain ⟨u, hu, rfl⟩ := h'
  rw [Option.mem_unique ht hu]

theorem endsWith_commaList {closer : TokenKind} {as : List α} (h : IsCommaList closer R τ as) :
    τ ≠ [] ∧ EndsWith closer τ := by
  cases h with
  | empty ht => exact ⟨by simp, _, rfl, ht⟩
  | items _ _ ht =>
    refine ⟨by simp, ?_⟩
    rw [← List.append_assoc, endsWith_append (by simp)]
    exact ⟨_, rfl, ht⟩

end SpanScript.Reader
