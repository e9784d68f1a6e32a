import SpanScript.Proofs.Syntax.Statement

/-!
# The next statement of a text

`Reader.next` takes newlines and then a statement.  What it reads is known by the
tokens it takes, and these do not depend on the bytes behind them.

* `gives_oneStatement`, `arrives_oneStatement`: newlines and a statement are read.
* `next_tokens`: the tokens that are taken tell the statement.
* `next_local`: the statement that is read stays the same when everything behind it
  is exchanged for something that closes it.
-/

namespace SpanScript.Reader

open Grammar

variable {P : Token → ParseFault → Prop} {types : List TypeName} {nesting : Nat} {S : Phrase Stmt}
  {s s' : ReadState} {a : Stmt} {c : Cursor} {τ ν : List Token}

theorem gives_oneStatement (hm : ReadsStmt P (statement types nesting 0) S) (hs : Ready s)
    (h : Gives (oneStatement types nesting) s a s') :
    ∃ ν τ, IsNewlines ν ∧ S τ a ∧ Consumes s (ν ++ τ) s' ∧
      ∀ t, s'.cursor.Faces t → ¬ Joins τ t.kind := by
  obtain ⟨_, s₁, h1, h⟩ := gives_bind.mp h
  obtain ⟨ν, hν, c₁, -⟩ := (dropNewlines_parses (P := P)).sound hs h1
  obtain ⟨t, s₂, h2, h⟩ := gives_bind.mp h
  obtain ⟨-, c₂⟩ := gives_peek h2
  split at h
  · exact absurd h not_gives_fail
  · obtain ⟨τ, hS, c₃, hn⟩ := hm.parses.sound (c₂.ready (c₁.ready hs)) h
    exact ⟨ν, τ, hν, hS, c₁.trans (c₂.trans c₃), hn⟩

/-- Newlines are taken before a statement. -/
theorem Arrives.oneStatement (h : At s (ν ++ τ) c) (hν : IsNewlines ν)
    (hτ : ∃ t σ, τ = t :: σ ∧ StartsStmt t.kind)
    (hm : ∀ s', At s' τ c → Arrives P (statement types nesting 0) s' τ a) :
    Arrives P (oneStatement types nesting) s (ν ++ τ) a := by
  obtain ⟨t, σ, rfl, ht⟩ := hτ
  refine dropNewlines_parses.bind (a := ()) h hν (startsStmt_ne ht).1 fun s₁ h₁ => ?_
  refine .peek_bind h₁ fun s₂ h₂ => ?_
  rw [if_neg h₂.reads.kind_ne_eof]
  exact hm s₂ h₂

theorem arrives_oneStatement (hm : ReadsStmt P (statement types nesting 0) S)
    (h : At s (ν ++ τ) c) (hν : IsNewlines ν) (hS : S τ a)
    (hF : ∃ t, c.Faces t ∧ ¬ Continues τ t.kind) :
    Arrives P (oneStatement types nesting) s (ν ++ τ) a :=
  .oneStatement h hν (hm.shape _ _ hS) fun _ h' => hm.parses.complete h' hS hF

theorem ready_start (c : Cursor) : Ready (.start c) := Nat.lt_succ_self _

/-- Once tokens are taken, the end of the last one is the place of the cursor. -/
theorem Consumes.endOffset (h : Consumes s τ s') (hτ : τ ≠ []) :
    s'.endOffset = s'.cursor.offset := by
  have ht := h.taken
  cases τ with
  | nil => exact absurd rfl hτ
  | cons t τ =>
    rw [List.isEmpty_cons, Bool.not_false, Bool.or_true] at ht
    rw [ReadState.endOffset, if_pos ht]

/-! ## What lies behind a statement -/

/-- The tokens of a text up to an offset come whatever lies behind that offset. -/
theorem reads_ofText_exchange {B B' : Bytes} {start : Nat} {loc : Location} {d : Cursor}
    (h : (Cursor.ofText B start B.length loc).Reads τ d) (hτ : τ ≠ [])
    (hB : B'.take d.offset = B.take d.offset) (hr : Neutral (B'.drop d.offset)) :
    (Cursor.ofText B' start B'.length loc).Reads τ
      ⟨B'.drop d.offset, d.offset, d.location⟩ := by
  obtain ⟨p, hp, ho, -, hlen⟩ := h.exists_bytes
  have hrest : B.drop start = p ++ d.rest := by
    rw [← hp]
    exact (Bytes.window_length B start).symm
  have hpos := List.length_pos_iff.mpr hτ
  have hstart : start + p.length ≤ B.length := by
    have := congrArg List.length hrest
    rw [List.length_drop, List.length_append] at this
    omega
  have htake : (B.take d.offset).drop start = p := by
    have ho : d.offset = start + p.length := ho
    rw [ho, List.drop_take, hrest, Nat.add_sub_cancel_left, List.take_left]
  have hlen' : start ≤ (B.take d.offset).length := by
    rw [List.length_take]
    have ho : d.offset = start + p.length := ho
    omega
  have hB' : B'.drop start = p ++ B'.drop d.offset := by
    conv_lhs => rw [← List.take_append_drop d.offset B', hB]
    rw [List.drop_append_of_le_length hlen', htake]
  have hexchange := h.exchange hp hr
  have hcursor : Cursor.ofText B' start B'.length loc = ⟨p ++ B'.drop d.offset, start, loc⟩ := by
    unfold Cursor.ofText
    rw [Bytes.window_length, hB']
  rw [hcursor]
  exact hexchange

theorem closes_not_continues {k : TokenKind} (h : Closes k) : ¬ Continues τ k := by
  rcases h with rfl | rfl | rfl <;>
    rintro (⟨hx | ⟨hx, -⟩, -⟩ | hx | hx | hx | hx) <;> cases hx

/-- A statement is known by its tokens: wherever these come, before something that
closes a statement, it is read. -/
theorem next_tokens (h : next types nesting (.start c) = (.ok a, s)) :
    ∃ τ, τ ≠ [] ∧ c.Reads τ s.cursor ∧ s.endOffset = s.cursor.offset ∧
      ∀ {c' d : Cursor} {t : Token}, c'.Reads τ d → d.Faces t → Closes t.kind →
        ∃ s', next types nesting (.start c') = (.ok a, s') ∧ s'.endOffset = d.offset := by
  have hm : ReadsStmt (fun _ _ => False) (statement types nesting 0)
      (StmtWithin types FitsDigits nesting 0) :=
    statement_reads_within (fun h => h) (fun _ h => .inl h) nesting 0
  obtain ⟨ν, τ, hν, hS, hc, -⟩ := gives_oneStatement hm (ready_start _) h
  have hne : ν ++ τ ≠ [] := by
    obtain ⟨t, σ, rfl, -⟩ := hm.shape _ _ hS
    simp
  refine ⟨ν ++ τ, hne, hc.reads, hc.endOffset hne, fun {c' d t} hr ht hk => ?_⟩
  rcases arrives_oneStatement hm (s := .start c') ⟨ready_start _, hr⟩ hν hS
    ⟨t, ht, closes_not_continues hk⟩ with ⟨s', h1, hc'⟩ | ⟨_, _, _, _, _, hfalse⟩
  · exact ⟨s', h1, by rw [hc'.endOffset hne, ← hr.unique hc'.reads]⟩
  · exact hfalse.elim

/-- **The parse of a statement does not depend on what follows it**: if the
statement `stmt` is read up to an offset, then it is read up to that offset from
every text that begins with the same bytes and then ends or closes the statement. -/
theorem next_local (types : List TypeName) (nesting : Nat) {B B' : Bytes} {start : Nat}
    {loc : Location} {stmt : Stmt} {s : ReadState}
    (h : next types nesting (.start (.ofText B start B.length loc)) = (.ok stmt, s))
    (hB : B'.take s.endOffset = B.take s.endOffset) (hr : Closing (B'.drop s.endOffset)) :
    ∃ s', next types nesting (.start (.ofText B' start B'.length loc)) = (.ok stmt, s') ∧
      s'.endOffset = s.endOffset := by
  obtain ⟨τ, hne, hreads, he, hτ⟩ := next_tokens h
  rw [he] at hB hr ⊢
  have hreads' := reads_ofText_exchange hreads hne hB hr.neutral
  obtain ⟨t, d, hn, hk⟩ := next_of_closing
    (c := ⟨B'.drop s.cursor.offset, s.cursor.offset, s.cursor.location⟩) hr
  obtain ⟨s', h1, h2⟩ := hτ hreads' ⟨d, hn⟩ hk
  exact ⟨s', h1, h2⟩

/-- An assignment before a bracket, and the same before a blank, a separator, a
comment and closing braces with a byte of no text behind them. -/
theorem next_local_assignment :
    ∃ s', next ["INT"] 8 (.start
        (.ofText [120, 61, 49, 32, 59, 35, 97, 10, 125, 125, 255] 0 11 ⟨1, 1⟩)) =
      (.ok (.assign ⟨1, 1⟩ "x" (.literal ⟨1, 3⟩ (.int 1)) none), s') ∧ s'.endOffset = 3 := by
  have h : next ["INT"] 8 (.start (.ofText [120, 61, 49, 93] 0 4 ⟨1, 1⟩)) =
      (.ok (.assign ⟨1, 1⟩ "x" (.literal ⟨1, 3⟩ (.int 1)) none),
        ⟨⟨[93], 3, ⟨1, 4⟩⟩, true, 4, 5⟩) := rfl
  exact next_local ["INT"] 8 h rfl
    (.inr ⟨[32, 59, 35, 97, 10], [255],
      .byte rfl (.byte rfl (.comment (c := [97]) (by decide) .nil)), rfl⟩)

end SpanScript.Reader
