import SpanScript.Proofs.Syntax.Parses
import SpanScript.Proofs.Syntax.Levels

/-!
# Expressions are read as the grammar has them

The productions of expressions, one by one, each over any readers of its parts.
What the productions have in common is in `ReadsExpr`: how an expression goes
on, and how it begins.

* `expression_reads`: `expression n extra` reads the expressions of the grammar,
  as deep as they may nest, or says that they nest too deeply.
* `expression_reads_within`: it reads all that nest no deeper than `n` levels.
-/

namespace SpanScript.Reader

open Grammar

variable {α β : Type} {P : Token → ParseFault → Prop} {fits : String → Prop}

/-! ## How expressions begin -/

def StartsExpr (k : TokenKind) : Prop :=
  k = .number ∨ k = .float ∨ k = .string ∨ k = .lbracket ∨ k = .lparen ∨ k = .ident

/-- What begins as expressions do; behind a name that goes on there are arguments
or indices. -/
def ExprShape (τ : List Token) : Prop :=
  ∃ t σ, τ = t :: σ ∧ StartsExpr t.kind ∧
    (t.kind = .ident → ∀ u ∈ σ.head?, u.kind = .lparen ∨ u.kind = .lbracket)

structure ReadsExpr (P : Token → ParseFault → Prop) (m : Reader Expr) (R : Phrase Expr) :
    Prop where
  parses : Parses P Extends Extends m R
  shape : ∀ {τ e}, R τ e → ExprShape τ

theorem ExprShape.ne_nil {τ : List Token} (h : ExprShape τ) : τ ≠ [] := by
  obtain ⟨t, σ, rfl, -⟩ := h
  exact List.cons_ne_nil _ _

theorem extends_append {τ σ : List Token} {k : TokenKind} (hσ : σ ≠ []) :
    Extends (τ ++ σ) k ↔ Extends σ k := by
  unfold Extends
  rw [endsWith_append hσ]

/-- Only brackets and parentheses go on with an expression. -/
theorem not_extends {τ : List Token} {k : TokenKind} (h1 : k ≠ .lbracket) (h2 : k ≠ .lparen) :
    ¬ Extends τ k := by
  rintro (h | ⟨h, -⟩)
  · exact h1 h
  · exact h2 h

theorem ReadsExpr.begins {m : Reader Expr} {R : Phrase Expr} (h : ReadsExpr P m R) {p}
    (hp : ∀ k, StartsExpr k → p k) : Begins p R := by
  intro τ e hR
  obtain ⟨t, σ, rfl, ht, -⟩ := h.shape hR
  exact ⟨t, σ, rfl, hp _ ht⟩

theorem startsExpr_ne {k k' : TokenKind} (h : StartsExpr k) (h' : ¬ StartsExpr k') : k ≠ k' := by
  rintro rfl
  exact h' h

/-! ## Arguments -/

/-- What may not come behind an argument that is read by position. -/
def ExtendsArgument (τ : List Token) (k : TokenKind) : Prop := Extends τ k ∨ k = .equals

theorem gives_keywordComes {s s' : ReadState} {b : Bool} (h : Gives keywordComes s b s') :
    Consumes s [] s' := by
  obtain ⟨_, s₁, h1, h⟩ := gives_bind.mp h
  obtain ⟨_, _, -, c₁⟩ := gives_sees h1
  split at h
  · obtain ⟨_, s₂, h2, h⟩ := gives_bind.mp h
    obtain ⟨rfl, rfl⟩ := gives_pure.mp h
    exact c₁.trans (gives_peekSecond h2).1
  · obtain ⟨rfl, rfl⟩ := gives_pure.mp h
    exact c₁

theorem argument_sound {m : Reader Expr} {R : Phrase Expr} (hm : ReadsExpr P m R)
    {s s' : ReadState} {a : Argument} (hs : Ready s) (h : Gives (argument m) s a s') :
    ∃ τ, IsArgument R τ a ∧ Consumes s τ s' := by
  obtain ⟨named, s₁, h1, h⟩ := gives_bind.mp h
  have c₁ := gives_keywordComes h1
  split at h
  · obtain ⟨name, s₂, h2, h⟩ := gives_bind.mp h
    obtain ⟨hname, c₂⟩ := gives_expect (by decide) h2
    obtain ⟨equals, s₃, h3, h⟩ := gives_bind.mp h
    obtain ⟨hequals, c₃⟩ := gives_expect (by decide) h3
    obtain ⟨e, s₄, h4, h⟩ := gives_bind.mp h
    obtain ⟨rfl, rfl⟩ := gives_pure.mp h
    obtain ⟨τ, hR, c₄, -⟩ := hm.parses.sound (c₃.ready (c₂.ready (c₁.ready hs))) h4
    exact ⟨_, .keyword hname hequals hR, c₁.trans (c₂.trans (c₃.trans c₄))⟩
  · obtain ⟨e, s₂, h2, h⟩ := gives_bind.mp h
    obtain ⟨rfl, rfl⟩ := gives_pure.mp h
    obtain ⟨τ, hR, c₂, -⟩ := hm.parses.sound (c₁.ready hs) h2
    exact ⟨τ, .positional hR, c₁.trans c₂⟩

section

variable {s : ReadState} {c : Cursor} {τ : List Token}

theorem arrives_keywordComes {name equals : Token} (h : At s (name :: equals :: τ) c)
    (hname : name.kind = .ident) (hequals : equals.kind = .equals) :
    Arrives P keywordComes s [] true := by
  obtain ⟨d, hn, he, hr⟩ := h.reads.exists_next
  obtain ⟨s₁, h1, c₁⟩ := sees_gives ⟨d, hn⟩ .ident
  obtain ⟨s₂, h2, c₂⟩ := peekSecond_gives (c₁.cursor_eq ▸ hn) he hr.faces
  refine .inl ⟨s₂, h1.bind ?_, c₁.trans c₂⟩
  rw [if_pos (by simpa using hname)]
  exact h2.bind (gives_pure.mpr ⟨by rw [hequals]; rfl, rfl⟩)

/-- No equals sign comes behind the first token of an expression, if none comes behind the
expression. -/
theorem arrives_keywordComes_false (h : At s τ c) (hτ : ExprShape τ)
    (hF : ∃ t, c.Faces t ∧ t.kind ≠ .equals) : Arrives P keywordComes s [] false := by
  obtain ⟨u, σ, rfl, -, hu⟩ := hτ
  obtain ⟨d, hd, he, hr⟩ := h.reads.exists_next
  obtain ⟨s₁, h1, c₁⟩ := sees_gives ⟨d, hd⟩ .ident
  by_cases hi : u.kind = .ident
  · have hnext : Follow c (fun k => k ≠ .equals) σ := by
      cases σ with
      | nil => exact hF
      | cons v σ =>
        show v.kind ≠ .equals
        rcases hu hi v rfl with h | h <;> rw [h] <;> decide
    obtain ⟨v, hv, hne⟩ := hnext.faces hr
    obtain ⟨s₂, h2, c₂⟩ := peekSecond_gives (c₁.cursor_eq ▸ hd) he hv
    refine .inl ⟨s₂, h1.bind ?_, c₁.trans c₂⟩
    rw [if_pos (by simpa using hi)]
    exact h2.bind (gives_pure.mpr ⟨by simpa using hne, rfl⟩)
  · refine .inl ⟨s₁, h1.bind ?_, c₁⟩
    rw [if_neg (by simpa using hi)]
    exact gives_pure.mpr ⟨rfl, rfl⟩

variable {m : Reader Expr} {R : Phrase Expr} {e : Expr}

theorem arrives_keyword (hm : ReadsExpr P m R) {name equals : Token}
    (h : At s (name :: equals :: τ) c) (hname : name.kind = .ident)
    (hequals : equals.kind = .equals) (hR : R τ e)
    (hF : ∃ t, c.Faces t ∧ ¬ Extends (name :: equals :: τ) t.kind) :
    Arrives P (argument m) s (name :: equals :: τ) (.keyword name.text e) := by
  refine .bind_nil (a := true) h (arrives_keywordComes h hname hequals) fun s₁ h₁ => ?_
  rw [if_pos rfl]
  refine .expect_bind h₁ hname fun s₂ h₂ => .expect_bind h₂ hequals fun s₃ h₃ => ?_
  obtain ⟨t, ht, hn⟩ := hF
  refine hm.parses.bind_last h₃ hR ⟨t, ht, fun hx => hn ?_⟩ fun _ _ => .pure
  exact (extends_append (τ := [name, equals]) (hm.shape hR).ne_nil).mpr hx

theorem arrives_positional (hm : ReadsExpr P m R) (h : At s τ c) (hR : R τ e)
    (hF : ∃ t, c.Faces t ∧ ¬ ExtendsArgument τ t.kind) :
    Arrives P (argument m) s τ (.positional e) := by
  obtain ⟨t, ht, hn⟩ := hF
  refine .bind_nil (a := false) h
    (arrives_keywordComes_false h (hm.shape hR) ⟨t, ht, fun hx => hn (.inr hx)⟩) fun s₁ h₁ => ?_
  rw [if_neg Bool.false_ne_true]
  exact hm.parses.bind_last h₁ hR ⟨t, ht, fun hx => hn (.inl hx)⟩ fun _ _ => .pure

end

theorem argument_parses {m : Reader Expr} {R : Phrase Expr} (hm : ReadsExpr P m R) :
    Parses P Never ExtendsArgument (argument m) (IsArgument R) where
  sound := by
    intro s s' a hs h
    obtain ⟨τ, hR, hc⟩ := argument_sound hm hs h
    exact ⟨τ, hR, hc, fun _ _ => not_never _ _⟩
  complete := by
    rintro s τ a c h hR ⟨t, ht, hn⟩
    cases hR with
    | keyword hname hequals hR =>
      exact arrives_keyword hm h hname hequals hR ⟨t, ht, fun hx => hn (.inl hx)⟩
    | positional hR => exact arrives_positional hm h hR ⟨t, ht, hn⟩

/-- Arguments by position come first, or the first one that does not is found. -/
theorem misplaced?_eq_none : ∀ {args : List Argument} {seen : Bool},
    misplaced? seen args = none ↔ (seen = true → ∀ a ∈ args, a.name?.isSome) ∧
      args.Pairwise (fun a b => a.name?.isSome → b.name?.isSome) := by
  intro args
  induction args with
  | nil => intro seen; simp [misplaced?]
  | cons a args ih =>
    intro seen
    cases a with
    | positional e => cases seen <;> simp [misplaced?, ih, Argument.name?]
    | keyword name e =>
      rw [misplaced?, ih]
      simp only [Argument.name?, Option.isSome_some, forall_const, List.mem_cons, forall_eq_or_imp,
        true_and, List.pairwise_cons]
      exact ⟨fun h => ⟨fun _ => h.1, h⟩, fun h => h.2⟩

/-! ## What stands in brackets and parentheses -/

theorem not_extends_argument {τ : List Token} {k : TokenKind} (h1 : k ≠ .lbracket)
    (h2 : k ≠ .lparen) (h3 : k ≠ .equals) : ¬ ExtendsArgument τ k := by
  rintro (h | h)
  · exact not_extends h1 h2 h
  · exact h3 h

theorem items_parses {m : Reader Expr} {R : Phrase Expr} (hm : ReadsExpr P m R) :
    Parses P Never Never (commaList .rbracket m) (IsCommaList .rbracket R) :=
  commaList_parses hm.parses (by decide) (by decide)
    (fun _ => ⟨not_extends (by decide) (by decide), not_extends (by decide) (by decide)⟩)
    (hm.begins fun _ h => startsExpr_ne h (by simp [StartsExpr]))

theorem arrives_group {m : Reader Expr} {R : Phrase Expr} (hm : ReadsExpr P m R)
    {s : ReadState} {τ : List Token} {c : Cursor} {e : Expr} (h : At s τ c)
    (hR : IsParenthesized R τ e) : Arrives P (parenthesized m) s τ e :=
  arrives_parenthesized hm.parses (fun _ => not_extends (by decide) (by decide)) h hR

theorem group_parses {m : Reader Expr} {R : Phrase Expr} (hm : ReadsExpr P m R) :
    Parses P Never Never (parenthesized m) (IsParenthesized R) :=
  parenthesized_parses hm.parses fun _ => not_extends (by decide) (by decide)

theorem arguments_parses {m : Reader Expr} {R : Phrase Expr} (hm : ReadsExpr P m R) :
    Parses P Never Never (commaList .rparen (argument m)) (IsCommaList .rparen (IsArgument R)) := by
  refine commaList_parses (argument_parses hm) (by decide) (by decide) (fun _ => ?_) ?_
  · exact ⟨not_extends_argument (by decide) (by decide) (by decide),
      not_extends_argument (by decide) (by decide) (by decide)⟩
  · rintro τ a (⟨hname, -, -⟩ | hR)
    · exact ⟨_, _, rfl, by rw [hname]; decide⟩
    · exact hm.begins (fun _ h => startsExpr_ne h (by simp [StartsExpr])) _ _ hR

theorem endsWith_parenthesized {R : Phrase Expr} {τ : List Token} {e : Expr}
    (h : IsParenthesized R τ e) : EndsWith .rparen τ := by
  cases h with
  | @mk l r τ e _ _ hr =>
    rw [← List.cons_append, endsWith_append (by simp)]
    exact ⟨r, rfl, hr⟩

/-! ## Primary expressions -/

/-- A name that comes before a parenthesis is called. -/
def Calls (τ : List Token) (k : TokenKind) : Prop := k = .lparen ∧ EndsWith .ident τ

/-- What an integer token gives. -/
theorem integer_eq (text : String) : integer text =
    if Numeral.digitLimit < digitCount text then .error (.literalTooLong (digitCount text))
    else .ok (integerOf text) := rfl

theorem integerLiteral_of_fits {text : String} (h : FitsDigits text) :
    (integerLiteral text : Reader Literal) = pure (integerOf text) := by
  have hv : TokenSource.integer ReadState text = .ok (integerOf text) := by
    change integer text = _
    rw [integer_eq, if_neg (Nat.not_lt.mpr h)]
  rw [integerLiteral, hv]

theorem integerLiteral_of_not_fits {text : String} (h : ¬ FitsDigits text) :
    (integerLiteral text : Reader Literal) = throw (.literalTooLong (digitCount text)) := by
  have hv : TokenSource.integer ReadState text = .error (.literalTooLong (digitCount text)) := by
    change integer text = _
    rw [integer_eq, if_pos (Nat.not_le.mp h)]
  rw [integerLiteral, hv]

/-- A primary expression is a name, or it ends with no name. -/
theorem not_calls_of_endsWith {τ : List Token} {k : TokenKind} (h : EndsWith k τ)
    (hk : k ≠ .ident) (k' : TokenKind) : ¬ Calls τ k' := fun hc => hk (endsWith_unique h hc.2)

theorem gives_peek_take {s s₁ s₂ : ReadState} {t u : Token} {k : TokenKind} (hk : k ≠ .eof)
    (h : t.kind = k) (h1 : Gives peek s t s₁) (h2 : Gives take s₁ u s₂) : Consumes s [t] s₂ := by
  obtain ⟨ht, c₁⟩ := gives_peek h1
  exact c₁.trans (gives_take (c₁.faces ht) (by rwa [h]) h2).2

/-- Tokens that are primary expressions by themselves. -/
theorem not_calls_singleton {t : Token} {k : TokenKind} (h : t.kind = k) (hk : k ≠ .ident)
    (k' : TokenKind) : ¬ Calls [t] k' := not_calls_of_endsWith ⟨t, rfl, h⟩ hk k'

/-- What is read behind the opening parenthesis of a call. -/
theorem call_sound {m : Reader Expr} {R : Phrase Expr} (hm : ReadsExpr P m R) {s s' : ReadState}
    {t l : Token} {e : Expr} (hs : Ready s) (h : Gives (do
      let args ← commaList .rparen (argument m)
      match misplaced? false args with
      | some e => fail .argumentOrder e.location
      | none => pure (.call t.location t.text args)) s e s') :
    ∃ τ args, e = .call t.location t.text args ∧ IsCommaList .rparen (IsArgument R) τ args ∧
      args.Pairwise (fun a b => a.name?.isSome → b.name?.isSome) ∧ Consumes s τ s' ∧
      ∀ k, ¬ Calls (t :: l :: τ) k := by
  obtain ⟨args, s₁, h1, h⟩ := gives_bind.mp h
  obtain ⟨τ, hR, c₁, -⟩ := (arguments_parses hm).sound hs h1
  split at h
  · exact absurd h not_gives_fail
  · next horder =>
    obtain ⟨rfl, rfl⟩ := gives_pure.mp h
    obtain ⟨hne, hend⟩ := endsWith_commaList hR
    exact ⟨τ, args, rfl, hR, (misplaced?_eq_none.mp horder).2, c₁,
      not_calls_of_endsWith ((endsWith_append (τ := [t, l]) hne).mpr hend) (by decide)⟩

theorem primary_sound (hfit : ∀ {text}, FitsDigits text → fits text) {expr : Nat → Reader Expr}
    {R : Nat → Phrase Expr} (he : ∀ w, ReadsExpr P (expr w) (R w)) {s s' : ReadState} {e : Expr}
    (hs : Ready s) (h : Gives (primary expr) s e s') :
    ∃ τ, IsPrimary fits R τ e ∧ Consumes s τ s' ∧ ∀ t, s'.cursor.Faces t → ¬ Calls τ t.kind := by
  obtain ⟨t, s₁, h1, h⟩ := gives_bind.mp h
  have c₁ := (gives_peek h1).2
  split at h
  · next hk =>
    obtain ⟨_, s₂, h2, h⟩ := gives_bind.mp h
    obtain ⟨v, s₃, h3, h⟩ := gives_bind.mp h
    obtain ⟨rfl, rfl⟩ := gives_pure.mp h
    by_cases hf : FitsDigits t.text
    · rw [integerLiteral_of_fits hf] at h3
      obtain ⟨rfl, rfl⟩ := gives_pure.mp h3
      exact ⟨[t], .number hk (hfit hf), gives_peek_take (by decide) hk h1 h2,
        fun _ _ => not_calls_singleton hk (by decide) _⟩
    · rw [integerLiteral_of_not_fits hf] at h3
      exact absurd h3 not_gives_throw
  · next hk =>
    obtain ⟨_, s₂, h2, h⟩ := gives_bind.mp h
    obtain ⟨rfl, rfl⟩ := gives_pure.mp h
    exact ⟨[t], .float hk, gives_peek_take (by decide) hk h1 h2,
      fun _ _ => not_calls_singleton hk (by decide) _⟩
  · next hk =>
    obtain ⟨_, s₂, h2, h⟩ := gives_bind.mp h
    obtain ⟨rfl, rfl⟩ := gives_pure.mp h
    exact ⟨[t], .string hk, gives_peek_take (by decide) hk h1 h2,
      fun _ _ => not_calls_singleton hk (by decide) _⟩
  · next hk =>
    obtain ⟨_, s₂, h2, h⟩ := gives_bind.mp h
    obtain ⟨items, s₃, h3, h⟩ := gives_bind.mp h
    obtain ⟨rfl, rfl⟩ := gives_pure.mp h
    have c₂ := gives_peek_take (by decide) hk h1 h2
    obtain ⟨τ, hR, c₃, -⟩ := (items_parses (he Weight.item)).sound (c₂.ready hs) h3
    obtain ⟨hne, hend⟩ := endsWith_commaList hR
    exact ⟨t :: τ, .tensor hk hR, c₂.trans c₃, fun _ _ => not_calls_of_endsWith
      ((endsWith_append (τ := [t]) hne).mpr hend) (by decide) _⟩
  · next hk =>
    obtain ⟨τ, hR, c₂, -⟩ := (group_parses (he Weight.parenthesis)).sound (c₁.ready hs) h
    refine ⟨τ, .group hR, c₁.trans c₂, fun _ _ => not_calls_of_endsWith ?_ (k := .rparen)
      (by decide) _⟩
    exact endsWith_parenthesized hR
  · next hk =>
    obtain ⟨_, s₂, h2, h⟩ := gives_bind.mp h
    have c₂ := gives_peek_take (by decide) hk h1 h2
    obtain ⟨b, s₃, h3, h⟩ := gives_bind.mp h
    rcases gives_accept (by decide) h3 with ⟨rfl, l, hl, c₃⟩ | ⟨rfl, c₃, u, hu, hne⟩
    · rw [if_pos rfl] at h
      obtain ⟨τ, args, rfl, hR, horder, c₄, hn⟩ :=
        call_sound (he Weight.argument) (c₃.ready (c₂.ready hs)) h
      exact ⟨t :: l :: τ, .call hk hl hR horder, c₂.trans (c₃.trans c₄), fun _ _ => hn _⟩
    · rw [if_neg Bool.false_ne_true] at h
      obtain ⟨rfl, rfl⟩ := gives_pure.mp h
      refine ⟨[t], .name hk, c₂.trans c₃, fun v hv hc => hne ?_⟩
      obtain rfl := (c₃.faces hu).unique hv
      exact hc.1
  · exact absurd h not_gives_fail

/-- An integer that fits is taken, and one that is too long is refused by its token. -/
theorem arrives_number {s : ReadState} {t : Token} {c : Cursor} (h : At s [t] c)
    (hfits : FitsDigits t.text ∨ P t (.literalTooLong (digitCount t.text))) :
    Arrives P (take >>= fun _ => integerLiteral t.text >>= fun v =>
      pure (Expr.literal t.location v)) s [t] (.literal t.location (integerOf t.text)) := by
  by_cases hf : FitsDigits t.text
  · refine .take_bind h fun s₁ h₁ => ?_
    rw [integerLiteral_of_fits hf]
    exact .pure
  · obtain ⟨s₁, h1, c₁⟩ := take_gives h.reads
    refine .inr ⟨_, s₁, h1.bind_fails (Fails.bind ?_ _), t, by simp, hfits.resolve_left hf⟩
    rw [integerLiteral_of_not_fits hf]
    exact fails_throw _ _

/-- A call, from behind its opening parenthesis. -/
theorem arrives_call {m : Reader Expr} {R : Phrase Expr} (hm : ReadsExpr P m R) {s : ReadState}
    {t : Token} {τ : List Token} {args : List Argument} {c : Cursor} (h : At s τ c)
    (hR : IsCommaList .rparen (IsArgument R) τ args)
    (horder : args.Pairwise fun a b => a.name?.isSome → b.name?.isSome)
    (hF : ∃ u, c.Faces u ∧ ¬ Never τ u.kind) :
    Arrives P (do
      let args ← commaList .rparen (argument m)
      match misplaced? false args with
      | some e => fail .argumentOrder e.location
      | none => pure (Expr.call t.location t.text args)) s τ (.call t.location t.text args) := by
  refine (arguments_parses hm).bind_last h hR hF fun s₁ h₁ => ?_
  rw [misplaced?_eq_none.mpr ⟨fun h => absurd h Bool.false_ne_true, horder⟩]
  exact .pure

theorem primary_complete
    (hfits : ∀ {t : Token}, t.kind = .number → fits t.text → FitsDigits t.text ∨
      P t (.literalTooLong (digitCount t.text)))
    {expr : Nat → Reader Expr} {R : Nat → Phrase Expr} (he : ∀ w, ReadsExpr P (expr w) (R w))
    {s : ReadState} {τ : List Token} {e : Expr} {c : Cursor} (h : At s τ c)
    (hR : IsPrimary fits R τ e) (hF : ∃ t, c.Faces t ∧ ¬ Calls τ t.kind) :
    Arrives P (primary expr) s τ e := by
  have hnever : ∀ {τ : List Token}, ∃ t, c.Faces t ∧ ¬ Never τ t.kind := by
    obtain ⟨t, ht, -⟩ := hF
    exact ⟨t, ht, not_never _ _⟩
  cases hR with
  | @number t hk hf =>
    refine .peek_bind h fun s₁ h₁ => ?_
    simp only [hk]
    exact arrives_number h₁ (hfits hk hf)
  | @float t hk =>
    refine .peek_bind h fun s₁ h₁ => ?_
    simp only [hk]
    exact .take_bind h₁ fun s₂ h₂ => .pure
  | @string t hk =>
    refine .peek_bind h fun s₁ h₁ => ?_
    simp only [hk]
    exact .take_bind h₁ fun s₂ h₂ => .pure
  | @tensor t τ items hk hR =>
    refine .peek_bind h fun s₁ h₁ => ?_
    simp only [hk]
    refine .take_bind h₁ fun s₂ h₂ => ?_
    exact (items_parses (he Weight.item)).bind_last h₂ hR hnever fun _ _ => .pure
  | @group τ e hR =>
    have hg := (group_parses (he Weight.parenthesis))
    cases hR with
    | @mk l r τ e hl hR hr =>
      refine .peek_bind h fun s₁ h₁ => ?_
      simp only [hl]
      exact hg.complete h₁ (.mk hl hR hr) hnever
  | @name t hk =>
    refine .peek_bind h fun s₁ h₁ => ?_
    simp only [hk]
    refine .take_bind h₁ fun s₂ h₂ => ?_
    refine .accept_bind_false h₂ ?_ fun _ _ => .pure
    obtain ⟨u, hu, hn⟩ := hF
    exact ⟨u, hu, fun hx => hn ⟨hx, t, rfl, hk⟩⟩
  | @call t l τ args hk hl hR hp =>
    refine .peek_bind h fun s₁ h₁ => ?_
    simp only [hk]
    refine .take_bind h₁ fun s₂ h₂ => ?_
    refine .accept_bind_true h₂ hl fun s₃ h₃ => ?_
    rw [if_pos rfl]
    exact arrives_call (he Weight.argument) h₃ hR hp hnever

/-- A primary expression is a name by itself, or it is not a name that goes on
with indices. -/
theorem primary_shape {R : Nat → Phrase Expr} {τ : List Token} {e : Expr}
    (h : IsPrimary fits R τ e) : ∃ t σ, τ = t :: σ ∧ StartsExpr t.kind ∧
      (t.kind = .ident → ∀ u ∈ σ.head?, u.kind = .lparen) := by
  unfold StartsExpr
  cases h with
  | number hk _ => exact ⟨_, _, rfl, by simp [hk], fun _ u hu => nomatch hu⟩
  | float hk => exact ⟨_, _, rfl, by simp [hk], fun _ u hu => nomatch hu⟩
  | string hk => exact ⟨_, _, rfl, by simp [hk], fun _ u hu => nomatch hu⟩
  | tensor hk _ => exact ⟨_, _, rfl, by simp [hk], fun h => by rw [hk] at h; cases h⟩
  | group h =>
    cases h with
    | mk hl _ _ => exact ⟨_, _, rfl, by simp [hl], fun h => by rw [hl] at h; cases h⟩
  | name hk => exact ⟨_, _, rfl, by simp [hk], fun _ u hu => nomatch hu⟩
  | call hk hl _ _ =>
    refine ⟨_, _, rfl, by simp [hk], fun _ u hu => ?_⟩
    obtain rfl : _ = u := by simpa using hu
    exact hl

/-! ## Indices -/

theorem gives_indexGroup {m : Reader Expr} {R : Phrase Expr} (hm : ReadsExpr P m R)
    {s s' : ReadState} {o : Option (Location × List Expr)} (hs : Ready s)
    (h : Gives (indexGroup m) s o s') :
    (o = none ∧ Consumes s [] s' ∧ ∃ t, s.cursor.Faces t ∧ t.kind ≠ .lbracket) ∨
    ∃ t τ indices, o = some (t.location, indices) ∧ t.kind = .lbracket ∧
      IsCommaList .rbracket R τ indices ∧ Consumes s (t :: τ) s' := by
  obtain ⟨b, s₁, h1, h⟩ := gives_bind.mp h
  obtain ⟨u, hu, rfl, c₁⟩ := gives_sees h1
  split at h
  · obtain ⟨t, s₂, h2, h⟩ := gives_bind.mp h
    obtain ⟨ht, c₂⟩ := gives_expect (by decide) h2
    obtain ⟨indices, s₃, h3, h⟩ := gives_bind.mp h
    obtain ⟨rfl, rfl⟩ := gives_pure.mp h
    obtain ⟨τ, hR, c₃, -⟩ := (items_parses hm).sound (c₂.ready (c₁.ready hs)) h3
    exact .inr ⟨t, τ, indices, rfl, ht, hR, c₁.trans (c₂.trans c₃)⟩
  · next hb =>
    obtain ⟨rfl, rfl⟩ := gives_pure.mp h
    exact .inl ⟨rfl, c₁, u, hu, by simpa using hb⟩

theorem indexGroup_advances {m : Reader Expr} {R : Phrase Expr} (hm : ReadsExpr P m R) :
    Advances (indexGroup m) := by
  intro s s' a hs h
  rcases gives_indexGroup hm hs h with ⟨h, -⟩ | ⟨t, τ, _, -, -, -, hc⟩
  · cases h
  · exact ⟨t :: τ, by simp, hc⟩

def Indexes (_ : List Token) (k : TokenKind) : Prop := k = .lbracket

theorem indexGroups_parses {m : Reader Expr} {R : Phrase Expr} (hm : ReadsExpr P m R) :
    Parses P Indexes Indexes (many (indexGroup m)) (IsIndexGroups R) where
  sound := by
    intro s s' gs hs h
    refine many_induction (indexGroup_advances hm) (motive := fun s gs s' =>
      ∃ τ, IsIndexGroups R τ gs ∧ Consumes s τ s' ∧
        ∀ t, s'.cursor.Faces t → ¬ Indexes τ t.kind) ?_ ?_ _ (Nat.lt_succ_self _) hs h
    · intro s s' hs h
      rcases gives_indexGroup hm hs h with ⟨-, hc, t, ht, hn⟩ | ⟨_, _, _, h, -⟩
      · refine ⟨[], .nil, hc, fun u hu => ?_⟩
        obtain rfl := (hc.faces ht).unique hu
        exact hn
      · cases h
    · rintro s s₁ s' g gs hs h ⟨σ, hσ, hc, hn⟩
      rcases gives_indexGroup hm hs h with ⟨h, -⟩ | ⟨t, τ, indices, h, ht, hR, c₁⟩
      · cases h
      · cases h
        exact ⟨(t :: τ) ++ σ, .cons ht hR hσ, c₁.trans hc, hn⟩
  complete := by
    intro s τ gs c h hR
    rintro ⟨t, ht, hn⟩
    induction hR generalizing s with
    | nil =>
      refine .many_stop (indexGroup_advances hm) h ?_
      refine .sees_bind false h (p := (· ≠ .lbracket)) ⟨t, ht, hn⟩
        (fun k hk => by simpa using hk) fun _ _ => ?_
      exact .pure
    | @cons l τ σ indices gs hl hR hσ ih =>
      rw [← List.cons_append] at h ⊢
      obtain ⟨d, h1, h2⟩ := h.take
      refine .many_turn (indexGroup_advances hm) h ?_ fun s₁ h₁ => ih h₁ hn
      refine .sees_bind true h1 (p := (· = .lbracket)) hl
        (fun k hk => by simpa using hk) fun s₁ h₁ => ?_
      rw [if_pos rfl]
      refine .expect_bind h₁ hl fun s₂ h₂ => ?_
      have hnext : ∃ t, d.Faces t ∧ ¬ Never τ t.kind := by
        obtain ⟨u, hu, -⟩ : ∃ u, d.Faces u ∧ True := by
          refine Follow.faces (c := c) (σ := σ) (p := fun _ => True) ?_ h2
          cases σ with
          | nil => exact ⟨t, ht, trivial⟩
          | cons => exact trivial
        exact ⟨u, hu, not_never _ _⟩
      exact (items_parses hm).bind_last h₂ hR hnext fun _ _ => .pure

theorem indexGroups_head {R : Phrase Expr} {τ : List Token} {gs : List (Location × List Expr)}
    (h : IsIndexGroups R τ gs) : ∀ t ∈ τ.head?, t.kind = .lbracket := by
  cases h with
  | nil => exact fun t ht => nomatch ht
  | cons ht _ _ =>
    intro u hu
    obtain rfl : _ = u := by simpa using hu
    exact ht

theorem indexGroups_end {R : Phrase Expr} {τ : List Token} {gs : List (Location × List Expr)}
    (h : IsIndexGroups R τ gs) (hτ : τ ≠ []) : EndsWith .rbracket τ := by
  induction h with
  | nil => exact absurd rfl hτ
  | @cons t τ σ indices gs ht hR hσ ih =>
    obtain ⟨hne, hend⟩ := endsWith_commaList hR
    by_cases hσ' : σ = []
    · subst hσ'
      rw [List.append_nil]
      exact (endsWith_append (τ := [t]) hne).mpr hend
    · rw [← List.cons_append, endsWith_append hσ']
      exact ih hσ'

/-! ## Expressions -/

theorem expression_shape {R : Nat → Phrase Expr} {S : Phrase Expr} {τ : List Token} {e : Expr}
    (h : IsExpression (IsPrimary fits R) S τ e) : ExprShape τ := by
  cases h with
  | @mk τ σ head gs hp hg =>
    obtain ⟨t, τ, rfl, ht, hu⟩ := primary_shape hp
    refine ⟨t, τ ++ σ, rfl, ht, fun hk u hmem => ?_⟩
    cases τ with
    | nil => exact .inr (indexGroups_head hg u hmem)
    | cons v τ => exact .inl (hu hk u hmem)

theorem expression_production
    (hfit : ∀ {text}, FitsDigits text → fits text)
    (hfits : ∀ {t : Token}, t.kind = .number → fits t.text → FitsDigits t.text ∨
      P t (.literalTooLong (digitCount t.text)))
    {expr : Nat → Reader Expr} {R : Nat → Phrase Expr} (he : ∀ w, ReadsExpr P (expr w) (R w))
    {m : Reader Expr} {S : Phrase Expr} (hm : ReadsExpr P m S) :
    Parses P Extends Extends (do
      let head ← primary expr
      let groups ← many (indexGroup m)
      pure (indexed head groups)) (IsExpression (IsPrimary fits R) S) where
  sound := by
    intro s s' e hs h
    obtain ⟨head, s₁, h1, h⟩ := gives_bind.mp h
    obtain ⟨groups, s₂, h2, h⟩ := gives_bind.mp h
    obtain ⟨rfl, rfl⟩ := gives_pure.mp h
    obtain ⟨τ, hR, c₁, hn₁⟩ := primary_sound hfit he hs h1
    obtain ⟨σ, hS, c₂, hn₂⟩ := (indexGroups_parses hm).sound (c₁.ready hs) h2
    refine ⟨τ ++ σ, .mk hR hS, c₁.trans c₂, fun t ht hx => ?_⟩
    rcases hx with hx | ⟨hx, hi⟩
    · exact hn₂ t ht hx
    · by_cases hσ : σ = []
      · subst hσ
        rw [List.append_nil] at hi
        rw [c₂.cursor_eq] at ht
        exact hn₁ t ht ⟨hx, hi⟩
      · rw [endsWith_append hσ] at hi
        exact absurd (endsWith_unique hi (indexGroups_end hS hσ)) (by decide)
  complete := by
    intro s τ e c h hR
    rintro ⟨t, ht, hn⟩
    cases hR with
    | @mk τ σ head gs hp hg =>
      obtain ⟨d, h1, h2⟩ := h.take
      refine .bind h (primary_complete hfits he h1 hp ?_) fun s₁ h₁ => ?_
      · refine Follow.faces (c := c) (σ := σ) (p := fun k => ¬ Calls τ k) ?_ h2
        cases σ with
        | nil => exact ⟨t, ht, fun hx => hn (by rw [List.append_nil]; exact .inr hx)⟩
        | cons u σ =>
          have hu := indexGroups_head hg u rfl
          intro hx
          rw [hu] at hx
          exact absurd hx.1 (by decide)
      · exact (indexGroups_parses hm).bind_last h₁ hg ⟨t, ht, fun hx => hn (.inl hx)⟩
          fun _ _ => .pure

/-- **Expressions are read as deep as levels allow.** -/
theorem expression_reads_within
    (hfit : ∀ {text}, FitsDigits text → fits text)
    (hfits : ∀ {t : Token}, t.kind = .number → fits t.text → FitsDigits t.text ∨
      P t (.literalTooLong (digitCount t.text))) :
    ∀ (n extra : Nat), ReadsExpr P (expression n extra) (ExprWithin fits n extra) := by
  intro n
  induction n with
  | zero =>
    intro extra
    refine ⟨⟨fun _ h => ?_, fun _ h _ => h.elim⟩, fun h => h.elim⟩
    exact absurd h not_gives_throw
  | succ n ih =>
    intro extra
    cases extra with
    | zero => exact ⟨expression_production hfit hfits ih (ih _), expression_shape⟩
    | succ extra => exact ih extra

/-- **Expressions are read as the grammar has them**, if they do not nest too
deeply. -/
theorem expression_reads (hdeep : ∀ t, P t .tooDeep)
    (hlong : ∀ {t : Token}, t.kind = .number → ¬ FitsDigits t.text →
      P t (.literalTooLong (digitCount t.text))) :
    ∀ (n extra : Nat), ReadsExpr P (expression n extra) IsExpr := by
  have hshape : ∀ {τ e}, IsExpr τ e → ExprShape τ := fun h => expression_shape (isExpr_iff.mp h)
  intro n
  induction n with
  | zero =>
    intro extra
    refine ⟨⟨fun _ h => absurd h not_gives_throw, fun _ hR _ => ?_⟩, hshape⟩
    obtain ⟨t, σ, rfl, -⟩ := hshape hR
    exact .inr ⟨_, _, fails_throw _ _, t, by simp, hdeep t⟩
  | succ n ih =>
    intro extra
    cases extra with
    | zero =>
      have h := expression_production (P := P) (fun _ => trivial)
        (fun {t} hk (_ : True) => (em (FitsDigits t.text)).imp_right (hlong hk)) ih
        (ih Weight.index)
      exact ⟨⟨fun hs hg => by simpa only [isExpr_iff] using h.sound hs hg,
        fun ha hR hF => h.complete ha (isExpr_iff.mp hR) hF⟩, hshape⟩
    | succ extra => exact ih extra

end SpanScript.Reader
