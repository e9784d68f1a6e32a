import SpanScript.Proofs.Syntax.Compositional

/-!
# One token ahead

A statement is read up to its last token, and at most one token behind that is looked at.
So the statement is the same wherever its tokens come and then that one token, whatever
stands behind: it may be the end of the text, or bytes that begin no token.

Some productions look farther than one token.  Whether a name is that of an argument or of a
declaration is told by the token behind it, and whether an index is assigned to by the token
behind all brackets.  The tokens up to there are taken afterwards, so that what is looked at
is no more than one token behind the statement again.

* `Answers`: a reader gives an answer wherever certain tokens come, and looks at one token
  behind them at most.
* `Frugal`: every answer of a reader is such an answer, by the tokens that it takes.
* `answers_peekSecond`, `answers_cellFollows`: the looks that go farther.
* `compositional_frugal`, `frugal_oneStatement`: all readers of expressions and statements
  are frugal.
-/

namespace SpanScript

/-! ## Places and the next token -/

namespace Cursor

variable {c d : Cursor} {t : Token} {τ σ : List Token}

/-- Where the next token ends; if none can be read, the place itself. -/
def ahead (c : Cursor) : Nat :=
  match c.next with
  | .ok (t, _) => t.stop
  | .error _ => c.offset

theorem ahead_eq (h : c.next = .ok (t, d)) : c.ahead = t.stop := by
  unfold ahead
  rw [h]

theorem Faces.ahead_eq (h : c.Faces t) : c.ahead = t.stop := by
  obtain ⟨d, hn⟩ := h
  exact Cursor.ahead_eq hn

theorem stop_of_next (h : c.next = .ok (t, d)) : t.stop = d.offset ∧ c.offset ≤ d.offset := by
  unfold next at h
  dsimp only at h
  split at h
  · cases h
    exact ⟨rfl, Nat.le_trans (Nat.le_add_right _ _) (Nat.le_add_right _ _)⟩
  · cases h

theorem offset_le_ahead (c : Cursor) : c.offset ≤ c.ahead := by
  cases h : c.next with
  | error f =>
    unfold ahead
    rw [h]
  | ok x =>
    obtain ⟨hstop, hle⟩ := stop_of_next (t := x.1) (d := x.2) h
    rw [ahead_eq (t := x.1) (d := x.2) h, hstop]
    exact hle

theorem Reads.ahead_le (h : c.Reads τ d) : c.ahead ≤ d.ahead := by
  cases τ with
  | nil =>
    cases h
    exact Nat.le_refl _
  | cons t τ =>
    rw [h.faces.ahead_eq]
    exact Nat.le_trans h.stop_le (offset_le_ahead d)

theorem Reads.tokens_unique (h : c.Reads τ d) (h' : c.Reads σ d) : τ = σ := by
  induction h generalizing σ with
  | nil =>
    cases σ with
    | nil => rfl
    | cons t σ =>
      have hlen := h'.length_le
      rw [List.length_cons] at hlen
      omega
  | @cons c e d t τ hn ht hr ih =>
    cases h' with
    | nil =>
      have hlen := (Reads.cons hn ht hr).length_le
      rw [List.length_cons] at hlen
      omega
    | cons hn' _ hr' =>
      rw [hn] at hn'
      cases hn'
      rw [ih hr']

/-- What comes at the one place comes at the other. -/
def Like (c d : Cursor) : Prop := ∀ u, c.Faces u → d.Faces u

theorem Like.refl (c : Cursor) : c.Like c := fun _ h => h

/-- Places before the same tokens are alike. -/
theorem Like.before {c' d' : Cursor} (h : c.Like d) (hc : c'.Reads τ c) (hd : d'.Reads τ d) :
    c'.Like d' := by
  cases τ with
  | nil =>
    cases hc
    cases hd
    exact h
  | cons t τ =>
    intro u hu
    obtain rfl := hu.unique hc.faces
    exact hd.faces

end Cursor

namespace Reader

open Grammar

variable {α β : Type} {m : Reader α} {a : α} {b : β} {s s' : ReadState} {t u : Token}
  {ρ υ σ τ : List Token} {c d : Cursor}

theorem Follow.like {p : TokenKind → Prop} (h : Follow c p σ) (hl : c.Like d) : Follow d p σ := by
  cases σ with
  | nil =>
    obtain ⟨u, hu, hp⟩ := h
    exact ⟨u, hl u hu, hp⟩
  | cons => exact h

/-! ## Answers -/

/-- Wherever the tokens `ρ` and `σ` come and then what is at `c`, the reader gives `a` and
takes `ρ`, and it looks at no more than one token behind `σ`. -/
def Answers (m : Reader α) (a : α) (ρ σ : List Token) (c : Cursor) : Prop :=
  ∀ s d, Ready s → s.cursor.Reads (ρ ++ σ) d → c.Like d →
    ∃ s', Gives m s a s' ∧ Consumes s ρ s' ∧ s'.reach ≤ max s.reach d.ahead

namespace Answers

theorem pure (a : α) (σ : List Token) (c : Cursor) : Answers (Pure.pure a) a [] σ c :=
  fun s _ _ _ _ => ⟨s, gives_pure.mpr ⟨rfl, rfl⟩, .refl s, Nat.le_max_left _ _⟩

theorem bind {k : α → Reader β} (h : Answers m a ρ (υ ++ σ) c) (hk : Answers (k a) b υ σ c) :
    Answers (m >>= k) b (ρ ++ υ) σ c := by
  intro s d hs hr hl
  rw [List.append_assoc] at hr
  obtain ⟨s₁, h1, c₁, hle₁⟩ := h s d hs hr hl
  obtain ⟨e, hr₁, hr₂⟩ := hr.split
  obtain rfl := hr₁.unique c₁.reads
  obtain ⟨s₂, h2, c₂, hle₂⟩ := hk s₁ d (c₁.ready hs) hr₂ hl
  exact ⟨s₂, h1.bind h2, c₁.trans c₂, by omega⟩

/-- The tokens that come behind those taken may be told. -/
theorem before (h : Answers m a ρ [] c) (hr : c.Reads σ d) : Answers m a ρ σ d := by
  intro s e hs hse hl
  obtain ⟨f, hsf, hfe⟩ := hse.split
  obtain ⟨s', h1, c₁, hle⟩ := h s f hs (by rwa [List.append_nil]) (hl.before hr hfe)
  have := hfe.ahead_le
  exact ⟨s', h1, c₁, by omega⟩

theorem congr {n : Reader α} (hmn : ∀ {s}, Ready s → m.run.run s = n.run.run s)
    (h : Answers n a ρ σ c) : Answers m a ρ σ c := by
  intro s d hs hr hl
  obtain ⟨s', h1, hc⟩ := h s d hs hr hl
  exact ⟨s', (hmn hs).trans h1, hc⟩

/-- The answer that a reader gives before the tokens is this one. -/
theorem eq_of_gives {a' : α} (h : Answers m a ρ σ c) (hs : Ready s) (hr : s.cursor.Reads (ρ ++ σ) c)
    (hg : Gives m s a' s') : a' = a := by
  obtain ⟨s₁, h1, -⟩ := h s c hs hr (.refl c)
  unfold Gives at h1 hg
  rw [hg] at h1
  cases h1
  rfl

end Answers

/-- The next token may be looked at. -/
theorem answers_peek (hr : d.Reads σ c) (ht : d.Faces t) : Answers peek t [] σ c := by
  intro s e _ hse hl
  obtain ⟨f, hn⟩ := (hl.before hr hse) t ht
  refine ⟨_, peek_of_next hn, .reach _ _, ?_⟩
  have hle := Cursor.Reads.ahead_le hse
  rw [Cursor.ahead_eq hn] at hle
  show max s.reach t.stop ≤ _
  omega

theorem answers_take (ht : t.kind ≠ .eof) (c : Cursor) : Answers take t [t] [] c := by
  intro s e _ hse _
  obtain ⟨d, hn, -, hr⟩ := hse.exists_next
  cases hr
  refine ⟨_, take_of_next hn, ⟨.single hn ht, rfl, by simp⟩, ?_⟩
  have hle := Cursor.Reads.stop_le hse
  have := Cursor.offset_le_ahead e
  show max s.reach t.stop ≤ _
  omega

/-- **The token after the next one** may be looked at, if the next one is taken afterwards. -/
theorem answers_peekSecond (hn : c.next = .ok (t, d)) (hr : c.Reads (t :: τ) e)
    (hu : d.Faces u) : Answers peekSecond u [] (t :: τ) e := by
  intro s f _ hsf hl
  obtain ⟨c', hn', ht, hr'⟩ := Cursor.Reads.exists_next hsf
  obtain ⟨d', hd', -, hde⟩ := hr.exists_next
  rw [hn] at hd'
  cases hd'
  obtain ⟨g, hg⟩ := (hl.before hde hr') u hu
  refine ⟨_, peekSecond_of_next hn' ht hg, .reach _ _, ?_⟩
  have hle := Cursor.Reads.stop_le hsf
  have hahead := Cursor.offset_le_ahead f
  have hle' := hr'.ahead_le
  rw [Cursor.ahead_eq hg] at hle'
  show max (max s.reach t.stop) u.stop ≤ _
  omega

/-- **The token behind all indices** may be looked at, if these are taken afterwards. -/
theorem answers_cellFollows {R : Phrase Expr} {gs : List (Location × List Expr)} {b : Bool}
    (hR : ∀ {σ e}, R σ e → Balanced σ) (hg : IsIndexGroups R τ gs)
    (hp : Follow c (fun k => k ≠ .lbracket ∧ (k == .equals) = b) σ) :
    Answers cellFollows b [] (t :: (τ ++ σ)) c := by
  intro s d hs hsd hl
  obtain ⟨e, hse, hed⟩ := Cursor.Reads.split (τ := t :: τ) hsd
  obtain ⟨u, hu, hne, rfl⟩ := (hp.like hl).faces hed
  obtain ⟨r, hle, hrun⟩ := run_cellFollows hR hs hse hg hu hne
  refine ⟨_, hrun, .reach _ _, ?_⟩
  have hahead := hed.ahead_le
  have hoffset := Cursor.offset_le_ahead e
  rw [hu.ahead_eq] at hahead hoffset
  show max s.reach r ≤ _
  omega

/-! ## Frugal readers -/

/-- Whatever the reader gives, it gives by the tokens that it takes. -/
def Frugal (m : Reader α) (i : { s : ReadState // Ready s }) : Prop :=
  ∀ a s', Gives m i.1 a s' → ∃ σ, Consumes i.1 σ s' ∧ Answers m a σ [] s'.cursor

theorem Frugal.bind {k : α → Reader β} {i : { s : ReadState // Ready s }} (h : Frugal m i)
    (hk : ∀ a j, Frugal (k a) j) : Frugal (m >>= k) i := by
  intro b s' hg
  obtain ⟨a, s₁, h1, h2⟩ := gives_bind.mp hg
  obtain ⟨σ, c₁, hσ⟩ := h a s₁ h1
  obtain ⟨ρ, c₂, hρ⟩ := hk a ⟨s₁, c₁.ready i.2⟩ b s' h2
  exact ⟨σ ++ ρ, c₁.trans c₂, .bind (by rw [List.append_nil]; exact hσ.before c₂.reads) hρ⟩

theorem Frugal.many {step : Reader (Option α)} {i : { s : ReadState // Ready s }}
    (adv : Advances step) (h : ∀ j, Frugal step j) : Frugal (Reader.many step) i := by
  intro as s' hg
  refine many_induction adv (motive := fun s as s' =>
    ∃ σ, Consumes s σ s' ∧ Answers (Reader.many step) as σ [] s'.cursor) ?_ ?_ _
    (Nat.lt_succ_self _) i.2 hg
  · intro s s' hs hg
    obtain ⟨σ, hc, hσ⟩ := h ⟨s, hs⟩ none s' hg
    refine ⟨σ, hc, .congr (many_run adv) ?_⟩
    rw [← List.append_nil σ]
    exact .bind (υ := []) hσ (.pure [] [] _)
  · rintro s s₁ s' a as hs hg ⟨ρ, c₂, hρ⟩
    obtain ⟨σ, c₁, hσ⟩ := h ⟨s, hs⟩ (some a) s₁ hg
    refine ⟨σ ++ ρ, c₁.trans c₂, .congr (many_run adv) ?_⟩
    refine .bind (by rw [List.append_nil]; exact hσ.before c₂.reads) ?_
    rw [← List.append_nil ρ]
    exact .bind (υ := []) hρ (.pure _ [] _)

theorem frugal_take {i : { s : ReadState // Ready s }} (ht : i.1.cursor.Faces t)
    (hk : t.kind ≠ .eof) : Frugal take i := by
  intro u s' hg
  obtain ⟨rfl, hc⟩ := gives_take ht hk hg
  exact ⟨[u], hc, answers_take hk _⟩

/-- To be frugal is kept by the steps that readers are made of. -/
theorem compositional_frugal :
    Compositional (fun i : { s : ReadState // Ready s } => i.1.cursor) Cursor.Faces Frugal where
  pure a i := by
    intro b s' hg
    obtain ⟨rfl, rfl⟩ := gives_pure.mp hg
    exact ⟨[], .refl _, .pure _ _ _⟩
  throw f i := fun _ _ hg => absurd hg not_gives_throw
  bind h hk := h.bind hk
  peek {β k i} hk := by
    intro b s' hg
    obtain ⟨t, s₁, h1, h2⟩ := gives_bind.mp hg
    obtain ⟨ht, c₁⟩ := gives_peek h1
    obtain ⟨σ, c₂, hσ⟩ := hk t ⟨s₁, c₁.ready i.2⟩ c₁.cursor_eq (c₁.faces ht) b s' h2
    refine ⟨σ, c₁.trans c₂, .bind (ρ := []) ?_ hσ⟩
    rw [List.append_nil]
    exact answers_peek c₂.reads (c₁.faces ht)
  take ht hk := frugal_take ht hk.2.2
  many adv h := .many adv h

/-! ## Readers that look farther -/

/-- What is looked at first is told by the tokens that are taken afterwards. -/
theorem Answers.look_bind {look : Reader α} {k : α → Reader β} (hlook : Answers look a [] τ c)
    (hk : Answers (k a) b τ [] c) : Answers (look >>= k) b τ [] c :=
  .bind (ρ := []) (by rwa [List.append_nil]) hk

/-- The tokens that a frugal reader takes, counted from where nothing has been taken. -/
theorem Frugal.answers (h : ∀ j, Frugal m j) {s₁ : ReadState} (hs : Ready s) (hc : Consumes s τ s')
    (c₁ : Consumes s [] s₁) (hg : Gives m s₁ a s') : Answers m a τ [] s'.cursor := by
  obtain ⟨σ, c₂, hσ⟩ := h ⟨s₁, c₁.ready hs⟩ a s' hg
  obtain rfl := hc.reads.tokens_unique (c₁.trans c₂).reads
  exact hσ

/-- Whether a name and an equals sign come is told by the tokens of the argument. -/
theorem answers_keywordComes {named : Bool} (hr : s.cursor.Reads (t :: τ) d)
    (hg : Gives keywordComes s named s') : Answers keywordComes named [] (t :: τ) d := by
  rw [keywordComes_eq] at hg ⊢
  obtain ⟨u, s₁, h1, h2⟩ := gives_bind.mp hg
  obtain ⟨hu, c₁⟩ := gives_peek h1
  obtain rfl := hu.unique hr.faces
  refine .bind (ρ := []) (υ := []) (answers_peek hr hu) ?_
  split at h2
  · next hk =>
    obtain ⟨v, s₂, h3, h4⟩ := gives_bind.mp h2
    obtain ⟨rfl, rfl⟩ := gives_pure.mp h4
    obtain ⟨-, w, e, hn, hv⟩ := gives_peekSecond h3
    rw [c₁.cursor_eq] at hn
    obtain rfl := hr.faces.unique ⟨e, hn⟩
    have hv : e.Faces v := by
      rcases hv with ⟨he, -⟩ | ⟨-, hv⟩
      · exact absurd he hr.kind_ne_eof
      · exact hv
    rw [if_pos hk]
    exact .bind (ρ := []) (υ := []) (answers_peekSecond hn hr hv) (.pure _ _ _)
  · next hk =>
    obtain ⟨rfl, rfl⟩ := gives_pure.mp h2
    rw [if_neg hk]
    exact .pure _ _ _

theorem frugal_argument {m : Reader Expr} {R : Phrase Expr}
    (hr : ReadsExpr (fun _ _ => True) m R) (h : ∀ j, Frugal m j)
    (i : { s : ReadState // Ready s }) : Frugal (argument m) i := by
  intro a s' hg
  obtain ⟨τ, hR, hc, -⟩ := (argument_parses hr).sound i.2 hg
  obtain ⟨t, σ, rfl⟩ : ∃ t σ, τ = t :: σ := by
    cases hR with
    | keyword => exact ⟨_, _, rfl⟩
    | positional hR =>
      obtain ⟨t, σ, rfl, -⟩ := hr.shape hR
      exact ⟨t, σ, rfl⟩
  rw [argument] at hg ⊢
  obtain ⟨named, s₁, h1, h2⟩ := gives_bind.mp hg
  have L := compositional_frugal
  refine ⟨_, hc, (answers_keywordComes hc.reads h1).look_bind ?_⟩
  refine Frugal.answers (fun j => ?_) i.2 hc (gives_keywordComes h1) h2
  refine Compositional.branch ?_ (L.map (h j) _)
  exact L.bind (L.expect (by decide)) fun _ _ => L.bind (L.expect (by decide)) fun _ j =>
    L.map (h j) _

theorem frugal_expression (n extra : Nat) (i : { s : ReadState // Ready s }) :
    Frugal (expression n extra) i :=
  compositional_frugal.expression (fun n w h => frugal_argument (expression_reads_any n w) h)
    n extra i

/-- Behind an expression a token can be read. -/
theorem exists_faces_of_expression : ∀ {n extra : Nat} {s s' : ReadState} {e : Expr}, Ready s →
    Gives (expression n extra) s e s' → ∃ u, s'.cursor.Faces u := by
  intro n
  induction n with
  | zero => exact fun _ hg => absurd hg not_gives_throw
  | succ n ih =>
    intro extra s s' e hs hg
    cases extra with
    | succ extra => exact ih hs hg
    | zero =>
      have hr := expression_reads_any n
      have hfit : ∀ {text}, FitsDigits text → FitsDigits text := id
      obtain ⟨head, s₁, h1, h2⟩ := gives_bind.mp hg
      obtain ⟨_, -, c₁, -⟩ := primary_sound hfit hr hs h1
      obtain ⟨groups, s₂, h3, h4⟩ := gives_bind.mp h2
      obtain ⟨-, rfl⟩ := gives_pure.mp h4
      refine many_induction (indexGroup_advances (hr Weight.index))
        (motive := fun _ _ s' => ∃ u, s'.cursor.Faces u) ?_ (fun _ _ h => h) _
        (Nat.lt_succ_self _) (c₁.ready hs) h3
      intro s s' hs hg
      rcases gives_indexGroup (hr Weight.index) hs hg with ⟨-, hc, u, hu, -⟩ | ⟨_, _, _, hx, -⟩
      · exact ⟨u, hc.faces hu⟩
      · cases hx

theorem gives_cellAssignment {m : Reader Expr} {stmt : Stmt}
    (hg : Gives (cellAssignment m) s stmt s') :
    ∃ loc target e, stmt = .assignCell loc target e := by
  obtain ⟨e, s₁, -, h⟩ := gives_bind.mp hg
  split at h
  · obtain ⟨equals, s₂, -, h⟩ := gives_bind.mp h
    obtain ⟨v, s₃, -, h⟩ := gives_bind.mp h
    obtain ⟨rfl, -⟩ := gives_pure.mp h
    exact ⟨_, _, _, rfl⟩
  · obtain ⟨_, s₂, -, h⟩ := gives_bind.mp h
    exact absurd h not_gives_fail

/-- Whether a cell is assigned to is told by the tokens of the statement. -/
theorem answers_cellFollows_of_gives {types : List TypeName} {n : Nat} {stmt : Stmt} {cell : Bool}
    {s₁ s₂ : ReadState}
    (hS : IsStatement types Joins (fun _ => IsExpr) (IsStmt types Joins) (t :: τ) stmt)
    (ht : t.kind = .ident) (hhead : ∀ v ∈ τ.head?, v.kind = .lbracket)
    (hjoins : ∀ u, s'.cursor.Faces u → ¬ Joins (t :: τ) u.kind)
    (hs : Ready s₁) (hr : s₁.cursor.Reads (t :: τ) s'.cursor) (h1 : Gives cellFollows s₁ cell s₂)
    (h2 : Gives (if cell then cellAssignment (expression n Weight.operand)
      else bareExpression (expression n 0)) s₂ stmt s') :
    Answers cellFollows cell [] (t :: τ) s'.cursor := by
  have hanswers : ∃ b, Answers cellFollows b [] (t :: τ) s'.cursor := by
    split at h2
    · obtain ⟨loc, target, e, rfl⟩ := gives_cellAssignment h2
      generalize hρ : t :: τ = ρ at hS
      cases hS with
      | cellAssignment hk hg hequals he =>
        cases hρ
        refine ⟨true, answers_cellFollows balanced_isExpr hg ?_⟩
        exact ⟨by rw [hequals]; decide, by rw [hequals]; rfl⟩
    · obtain ⟨e, s₃, h3, h4⟩ := gives_bind.mp h2
      obtain ⟨rfl, rfl⟩ := gives_pure.mp h4
      obtain ⟨u, hu⟩ := exists_faces_of_expression ((gives_cellFollows h1).ready hs) h3
      cases hS with
      | evaluate he =>
        obtain ⟨gs, hg, -⟩ := exists_indices ht hhead (isExpr_iff.mp he)
        rw [← List.append_nil τ]
        refine ⟨u.kind == .equals, answers_cellFollows balanced_isExpr hg ⟨u, hu, ?_, rfl⟩⟩
        exact fun hk => hjoins u hu ⟨.inl hk, not_begins_of_ident ht⟩
  obtain ⟨b, hb⟩ := hanswers
  obtain rfl := hb.eq_of_gives hs hr h1
  exact hb

/-- Statements that begin with a name. -/
theorem frugal_named (types : List TypeName) (n : Nat) {i : { s : ReadState // Ready s }}
    (hf : i.1.cursor.Faces t) (ht : t.kind = .ident) : Frugal (named types (expression n) t) i := by
  intro stmt s' hg
  have he := readsExprs (P := fun _ _ => True) (fun _ => trivial) (fun _ _ => trivial) n
  obtain ⟨τ, hS, hc, hjoins⟩ := named_gives (S := IsStmt types Joins) he hf ht i.2 hg
  obtain ⟨v, σ, rfl, -⟩ := begins_statement he τ stmt hS
  obtain rfl := hf.unique hc.reads.faces
  obtain ⟨u, s₁, h1, h2⟩ := gives_bind.mp hg
  obtain ⟨c₁, v, d, hn, hu⟩ := gives_peekSecond h1
  obtain rfl := hf.unique ⟨d, hn⟩
  have hu : d.Faces u := by
    rcases hu with ⟨hk, -⟩ | ⟨-, hu⟩
    · exact absurd hk hc.reads.kind_ne_eof
    · exact hu
  have hhead : ∀ v ∈ σ.head?, v = u := by
    intro v hv
    obtain ⟨e, hn', -, hr⟩ := hc.reads.exists_next
    rw [hn] at hn'
    cases hn'
    cases σ with
    | nil => cases hv
    | cons w σ =>
      obtain rfl := Option.some.inj hv
      exact hr.faces.unique hu
  have L := compositional_frugal
  have hexpr := fun w => frugal_expression n w
  have answers {m : Reader Stmt} (h : ∀ j, Frugal m j) (hg : Gives m s₁ stmt s') :
      Answers m stmt (t :: σ) [] s'.cursor := Frugal.answers h i.2 hc c₁ hg
  refine ⟨_, hc, (answers_peekSecond hn hc.reads hu).look_bind ?_⟩
  split at h2
  · next hk =>
    rw [if_pos hk]
    exact answers (fun j => L.declaration (hexpr _) types) h2
  · next hk =>
    rw [if_neg hk]
    split at h2
    · next hk =>
      rw [if_pos hk]
      exact answers (fun j => L.assignment (hexpr _) none) h2
    · next hk =>
      rw [if_neg hk]
      split at h2
      · next hk =>
        rw [if_pos hk]
        obtain ⟨cell, s₂, h3, h4⟩ := gives_bind.mp h2
        have hcell := answers_cellFollows_of_gives hS ht (fun v hv => hhead v hv ▸ hk) hjoins
          (c₁.ready i.2) (c₁.cursor_eq ▸ hc.reads) h3 h4
        refine hcell.look_bind ?_
        exact Frugal.answers (fun j => Compositional.branch (L.cellAssignment (hexpr _))
          (L.bareExpression (hexpr _))) i.2 hc (c₁.trans (gives_cellFollows h3)) h4
      · next hk =>
        rw [if_neg hk]
        exact answers (fun j => L.bareExpression (hexpr _)) h2

/-- **The next statement** is read by its tokens and the one behind them. -/
theorem frugal_oneStatement (types : List TypeName) (nesting : Nat)
    (i : { s : ReadState // Ready s }) : Frugal (oneStatement types nesting) i := by
  have L := compositional_frugal
  refine L.oneStatement (L.statement types (fun n w => frugal_expression n w)
    (fun n t j hf ht => frugal_named types n hf ht) (fun n h j => ?_) nesting 0)
  exact L.block frugal_take (statement_reads_any types n Weight.block) h

end Reader

end SpanScript
