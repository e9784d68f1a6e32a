import SpanScript.Proofs.Syntax.Numbers
import SpanScript.Proofs.Syntax.Places

/-!
# Statements in a block

Texts that are statements by themselves are the statements of a block when each is put on
lines of its own.  What a text is read as by itself is known by its tokens.  They come at
other places in the block, and with a newline behind them, which goes on with no token and
with no statement; so the statements of the block are the same ones, but for their places.

A block takes levels for itself, so it may nest too deeply where the texts by themselves
do not.  Nothing else can go wrong: a literal that is too long to be read would have been
one before.

* `Reader.Spells`: a text is a statement, to its end.
* `exists_tokens`, `exists_items`: the tokens of such texts in a longer one.
* `next_always`: the choice whose test is a literal one, with such texts in its block.
-/

namespace SpanScript

open Alphabet Grammar

/-! ## Single tokens -/

/-- The token of the bytes `p`, in front of any others. -/
theorem Cursor.next_lexeme {c : Cursor} (p : Bytes) {rest : Bytes} (kind : TokenKind)
    (text : String) (h : c.rest = p ++ rest) (hg : gap (p ++ rest) = 0)
    (hs : Lexeme.scan (p ++ rest) = .ok ⟨kind, text, p.length⟩) :
    ∃ t d, c.next = .ok (t, d) ∧ t.kind = kind ∧ t.text = text ∧ d.rest = rest ∧
      d.offset = c.offset + p.length := by
  unfold Cursor.next
  simp only [move, h, hg, List.drop_zero, hs]
  exact ⟨_, _, rfl, rfl, rfl, List.drop_left, rfl⟩

/-- A token of one byte. -/
theorem Cursor.next_byte {c : Cursor} {b : UInt8} {rest : Bytes} (kind : TokenKind)
    {text : String} (h : c.rest = b :: rest) (h1 : isBlank b = false) (h2 : (b == hash) = false)
    (hs : Lexeme.scan (b :: rest) = .ok ⟨kind, text, 1⟩) :
    ∃ t d, c.next = .ok (t, d) ∧ t.kind = kind ∧ d.rest = rest ∧ d.offset = c.offset + 1 := by
  obtain ⟨t, d, hn, hk, -, hd⟩ := c.next_lexeme [b] kind text h (gap_of_not_begins h1 h2 rest) hs
  exact ⟨t, d, hn, hk, hd⟩

/-- A choice with one block whose test is a literal one. -/
def Stmt.always (loc test brace : Location) (body : List Stmt) : Stmt :=
  .ifElse loc [.mk (.literal test (.int 1)) (.mk brace body)] none

/-- What comes in front of the block of a choice whose test is a literal one. -/
def alwaysHead : Bytes := [73, 70, 40, 49, 41, 123]

theorem Cursor.reads_alwaysHead {c : Cursor} {rest : Bytes} (h : c.rest = alwaysHead ++ rest) :
    ∃ k l n r b d, c.Reads [k, l, n, r, b] d ∧ k.kind = .keyword .ifWord ∧ l.kind = .lparen ∧
      n.kind = .number ∧ n.text = "1" ∧ r.kind = .rparen ∧ b.kind = .lbrace ∧ d.rest = rest ∧
      d.offset = c.offset + alwaysHead.length := by
  obtain ⟨k, c₁, hk, kk, -, r₁, o₁⟩ := c.next_lexeme [73, 70] (.keyword .ifWord) _ h rfl rfl
  obtain ⟨l, c₂, hl, kl, r₂, o₂⟩ := c₁.next_byte .lparen r₁ rfl rfl rfl
  obtain ⟨n, c₃, hn, kn, tn, r₃, o₃⟩ := c₂.next_lexeme [49] .number "1" r₂ rfl rfl
  obtain ⟨r, c₄, hr, kr, r₄, o₄⟩ := c₃.next_byte .rparen r₃ rfl rfl rfl
  obtain ⟨b, d, hb, kb, r₅, o₅⟩ := c₄.next_byte .lbrace r₄ rfl rfl rfl
  have hreads : c.Reads [k, l, n, r, b] d := by
    refine .cons hk ?_ (.cons hl ?_ (.cons hn ?_ (.cons hr ?_ (.single hb ?_)))) <;> simp [*]
  refine ⟨k, l, n, r, b, d, hreads, kk, kl, kn, tn, kr, kb, r₅, ?_⟩
  rw [o₅, o₄, o₃, o₂, o₁]
  rfl

namespace Reader

variable {types : List TypeName} {nesting : Nat}

/-! ## Texts that are statements -/

/-- The text is a statement, to its end. -/
def Spells (types : List TypeName) (nesting : Nat) (s : Bytes) (a : Stmt) : Prop :=
  ∃ loc r, next types nesting (.start ⟨s, 0, loc⟩) = (.ok a, r) ∧ r.endOffset = s.length

/-- The tokens of such a text come wherever it stands, if nothing goes on with the last one;
and they are the same statement there, but for its places. -/
theorem Spells.exists_tokens {s : Bytes} {a : Stmt} (h : Spells types nesting s a) {c : Cursor}
    {rest : Bytes} (hc : c.rest = s ++ rest) (hr : Neutral rest) :
    ∃ ν τ b d, IsNewlines ν ∧ StmtWithin types FitsDigits nesting 0 τ b ∧
      a.relocate Location.forget = b.relocate Location.forget ∧ c.Reads (ν ++ τ) d ∧
      d.rest = rest ∧ d.offset = c.offset + s.length := by
  obtain ⟨loc, r, hnext, hend⟩ := h
  -- the text is cut off behind its last token, and moved to where the cursor is
  have hshift : Shifted c.offset ⟨s, 0, loc⟩ ⟨s, c.offset, c.location⟩ :=
    ⟨rfl, (Nat.zero_add _).symm⟩
  obtain ⟨a', r', b, t, ha', hb, hab, ht⟩ | ⟨x, _, _, _, hx, _, _⟩ :=
    next_shifted types nesting hshift
  · rw [hnext] at ha'
    cases ha'
    have hstmt : ReadsStmt (fun _ _ => True) (statement types nesting 0)
        (StmtWithin types FitsDigits nesting 0) :=
      statement_reads_within id (fun _ hf => .inl hf) nesting 0
    obtain ⟨ν, τ, hν, hτ, hcons, -⟩ := gives_oneStatement hstmt (ready_start _) hb
    have hne : ν ++ τ ≠ [] := by
      obtain ⟨u, σ, rfl, -⟩ := hstmt.shape _ _ hτ
      simp
    obtain ⟨p, hp, hoffset, -, -⟩ := hcons.reads.exists_bytes
    have hlength : p.length = s.length := by
      have := hcons.endOffset hne
      simp only [ReadState.start] at hoffset
      omega
    obtain ⟨rfl, hrest⟩ : s = p ∧ t.cursor.rest = [] := by
      have hs : s = p ++ t.cursor.rest := hp
      have hnil : t.cursor.rest = [] := by
        have := congrArg List.length hs
        rw [List.length_append] at this
        exact List.eq_nil_of_length_eq_zero (by omega)
      exact ⟨by rw [hs, hnil, List.append_nil], hnil⟩
    have hreads := hcons.reads.exchange hp hr
    obtain ⟨bytes, offset, location⟩ := c
    obtain rfl : bytes = s ++ rest := hc
    exact ⟨ν, τ, b, _, hν, hτ, hab, hreads, rfl, hoffset⟩
  · rw [hnext] at hx
    cases hx

/-! ## The block -/

/-- Texts, each on lines of its own. -/
def linesOf (texts : List Bytes) : Bytes := texts.flatMap (· ++ [Bytes.newline])

theorem not_joins_newline (τ : List Token) : ¬ Joins τ .newline := by
  rintro ⟨h | ⟨h, -⟩, -⟩ <;> cases h

/-- The tokens of texts that are statements, up to and with the brace that closes the block,
are the items of a block, the statements of the texts but for their places. -/
theorem exists_items {texts : List Bytes} {stmts : List Stmt}
    (h : List.Forall₂ (Spells types nesting) texts stmts) {tail : Bytes} :
    ∀ {c : Cursor}, c.rest = linesOf texts ++ 125 :: tail →
      ∃ τ body d, c.Reads τ d ∧ IsItems Joins (IsStmt types Joins) τ body ∧
        NumbersFit FitsDigits τ ∧
        stmts.map (Stmt.relocate Location.forget) = body.map (Stmt.relocate Location.forget) ∧
        d.rest = tail ∧ d.offset = c.offset + (linesOf texts).length + 1 := by
  induction h with
  | nil =>
    intro c hc
    obtain ⟨t, d, ht, hk, hrest, hoffset⟩ := c.next_byte .rbrace hc rfl rfl rfl
    have hreads : c.Reads [t] d := .single ht (by rw [hk]; decide)
    exact ⟨[t], [], d, hreads, .close hk, by simp [hk], rfl, hrest, hoffset⟩
  | @cons s a texts stmts hs _ ih =>
    intro c hc
    have hline : c.rest = s ++ Bytes.newline :: (linesOf texts ++ 125 :: tail) := by
      rw [hc, linesOf, List.flatMap_cons]
      simp only [List.append_assoc, List.cons_append, List.nil_append, linesOf]
    have hneutral : Neutral (Bytes.newline :: (linesOf texts ++ 125 :: tail)) := by
      intro b hb
      cases hb
      decide
    obtain ⟨ν, τ, b, d₁, hν, hτ, hab, hreads, hrest₁, hoffset₁⟩ := hs.exists_tokens hline hneutral
    obtain ⟨t, d₂, ht, hk, hrest₂, hoffset₂⟩ := d₁.next_byte .newline hrest₁ rfl rfl rfl
    obtain ⟨σ, body, d, hσ, hitems, hfit, hbody, hrest, hoffset⟩ := ih hrest₂
    have hwalk : c.Reads ((ν ++ τ) ++ t :: σ) d :=
      hreads.append (.cons ht (by rw [hk]; decide) hσ)
    have hstmt : IsItems Joins (IsStmt types Joins) (ν ++ (τ ++ t :: σ)) (b :: body) :=
      items_newlines (.stmt (isStmt_of_within nesting hτ) (hk ▸ not_joins_newline τ)
        (.newline hk hitems)) hν
    have hνfit : NumbersFit FitsDigits ν := fun u hu hnumber => by
      rw [hν u hu] at hnumber
      cases hnumber
    rw [List.append_assoc] at hwalk
    refine ⟨_, _, d, hwalk, hstmt, ?_, ?_, hrest, ?_⟩
    · simp [hk, hfit, hνfit, numbersFit_stmtWithin types nesting 0 hτ]
    · rw [List.map_cons, List.map_cons, hab, hbody]
    · rw [hoffset, hoffset₂, hoffset₁, linesOf, linesOf, List.flatMap_cons]
      simp only [List.length_append, List.length_singleton]
      omega

/-- A choice whose test is a literal one, with texts in its block. -/
def alwaysText (texts : List Bytes) : Bytes := alwaysHead ++ (linesOf texts ++ [125])

example : alwaysText [[97], [98]] = Bytes.ofString "IF(1)\x7ba\nb\n\x7d" := by decide

/-- **A choice that always holds has the statements of the texts in its block**, but for
their places, if it does not nest too deeply. -/
theorem next_always {texts : List Bytes} {stmts : List Stmt}
    (h : List.Forall₂ (Spells types nesting) texts stmts) (levels : Nat) {c : Cursor} {rest : Bytes}
    (hc : c.rest = alwaysText texts ++ rest) (hr : Closing rest) :
    (∃ s, next types levels (.start c) = (.error .tooDeep, s)) ∨
      ∃ loc test brace body s,
        next types levels (.start c) = (.ok (.always loc test brace body), s) ∧
        s.endOffset = c.offset + (alwaysText texts).length ∧
        stmts.map (Stmt.relocate Location.forget) = body.map (Stmt.relocate Location.forget) := by
  have hhead : c.rest = alwaysHead ++ (linesOf texts ++ 125 :: rest) := by
    rw [hc, alwaysText]
    simp only [List.append_assoc, List.singleton_append]
  obtain ⟨k, l, n, r, b, d₁, hreads₁, hk, hl, hn, hone, hparen, hb, hrest₁, hoffset₁⟩ :=
    c.reads_alwaysHead hhead
  obtain ⟨τ, body, d, hreads, hitems, hfit, hbody, hrest, hoffset⟩ := exists_items h hrest₁
  have hliteral : IsExpr [n] (.literal n.location (.int 1)) := by
    have hnumber : IsPrimary (fun _ => True) (fun _ => IsExpr) [n]
        (.literal n.location (integerOf n.text)) := .number hn trivial
    rw [hone] at hnumber
    exact .mk (.mk hnumber .nil)
  have hbranch : IsGuarded IsExpr (IsBlock Joins (IsStmt types Joins)) ([l, n, r] ++ b :: τ)
      (.mk (.literal n.location (.int 1)) (.mk b.location body)) :=
    .mk (.mk hl hliteral hparen) (.mk hb hitems)
  have hstmt : IsStmt types Joins (k :: (([l, n, r] ++ b :: τ) ++ []))
      (.always k.location n.location b.location body) := .mk (.choice hk hbranch .nil)
  have hwalk : c.Reads (k :: (([l, n, r] ++ b :: τ) ++ [])) d := by
    have := hreads₁.append hreads
    rwa [List.append_nil]
  -- reading fails only for the levels, since every number was read before
  have hread : ReadsStmt (fun t f => f = .tooDeep ∨ t.kind = .number ∧ ¬ FitsDigits t.text)
      (statement types levels 0) (IsStmt types Joins) :=
    statement_reads (fun _ => .inl rfl) (fun hk hf => .inr ⟨hk, hf⟩) levels 0
  obtain ⟨t, e, ht, hclose⟩ := next_of_closing (c := d) (hrest ▸ hr)
  obtain ⟨s, hs, hcons⟩ | ⟨f, s, hf, u, hu, hP⟩ := arrives_oneStatement (ν := []) hread
    ⟨ready_start c, hwalk⟩ nofun hstmt ⟨t, ⟨e, ht⟩, closes_not_continues hclose⟩
  · refine .inr ⟨_, _, _, body, s, hs, ?_, hbody⟩
    have hcursor : s.cursor = d := hcons.reads.unique hwalk
    rw [hcons.endOffset (List.cons_ne_nil _ _), hcursor, hoffset, hoffset₁, alwaysText]
    simp only [List.length_append, List.length_singleton]
    omega
  · have hall : NumbersFit FitsDigits (k :: (([l, n, r] ++ b :: τ) ++ [])) := by
      have : FitsDigits "1" := by unfold FitsDigits; decide
      simp [hk, hl, hn, hone, hparen, hb, hfit, this]
    left
    obtain rfl | ⟨hnumber, hlong⟩ := hP
    · exact ⟨s, hf⟩
    · exact absurd (hall u hu hnumber) hlong

end Reader

end SpanScript
