import Mathlib
import SpanScript.Proofs.Syntax.Places
import SpanScript.Proofs.Syntax.Steady
import SpanScript.Proofs.Token.Tiling

/-!
# A text that is spelled anew

Tokens are known by their own bytes.  When the bytes of the tokens of a text are laid out
with blanks between them, and every comment and every gap is left out, the tokens are the
same, and so are the statements, but for their places.

* `Spaced`: slices with blanks between them.
* `Cursor.Words`: the kinds and texts of the tokens that come up to the end.
* `bisimulates_words`: a reader does not tell apart cursors that the same words come from.
* `respelled_alike`: the tokens and the statements of a text that is spelled anew.
-/

namespace SpanScript

open Alphabet

/-! ## Slices and blanks -/

def Blanks (w : Bytes) : Prop := ∀ b ∈ w, isBlank b = true

instance (w : Bytes) : Decidable (Blanks w) :=
  decidable_of_iff (w.all isBlank = true) List.all_eq_true

/-- The slices in order, with blanks between any two of them, and maybe some before the
first and behind the last. -/
inductive Spaced : List Bytes → Bytes → Prop
  | nil {w : Bytes} : Blanks w → Spaced [] w
  | one {v s w : Bytes} : Blanks v → Blanks w → Spaced [s] (v ++ (s ++ w))
  | cons {v s w s' r : Bytes} {ss : List Bytes} : Blanks v → Blanks w → w ≠ [] →
      Spaced (s' :: ss) r → Spaced (s :: s' :: ss) (v ++ (s ++ (w ++ r)))

theorem Blanks.append {v w : Bytes} (hv : Blanks v) (hw : Blanks w) : Blanks (v ++ w) := by
  intro b hb
  rcases List.mem_append.mp hb with hb | hb
  · exact hv b hb
  · exact hw b hb

/-- No token goes on with a blank. -/
theorem Blanks.neutral {w : Bytes} (hw : Blanks w) (hne : w ≠ []) (r : Bytes) :
    Neutral (w ++ r) := by
  cases w with
  | nil => exact absurd rfl hne
  | cons a w =>
    intro b hb
    obtain rfl : a = b := Option.some.inj hb
    have hblank : (a = 32 ∨ a = 9) ∨ a = 13 := by
      simpa [isBlank] using hw a List.mem_cons_self
    rcases hblank with (rfl | rfl) | rfl <;> decide

theorem Spaced.blanks_append {w r : Bytes} {ss : List Bytes} (hw : Blanks w) (h : Spaced ss r) :
    Spaced ss (w ++ r) := by
  cases h with
  | nil h => exact .nil (hw.append h)
  | one hv h =>
    rw [← List.append_assoc]
    exact .one (hw.append hv) h
  | cons hv h hne hr =>
    rw [← List.append_assoc]
    exact .cons (hw.append hv) h hne hr

/-- The first slice, the blanks before it, and what is behind it, which no token goes on
with. -/
theorem Spaced.head {s r : Bytes} {ss : List Bytes} (h : Spaced (s :: ss) r) :
    ∃ v x, r = v ++ (s ++ x) ∧ Blanks v ∧ Neutral x ∧ Spaced ss x := by
  cases h with
  | @one v _ w hv hw =>
    refine ⟨v, w, rfl, hv, ?_, .nil hw⟩
    cases w with
    | nil => exact fun b hb => nomatch hb
    | cons b w => simpa using hw.neutral (List.cons_ne_nil b w) []
  | @cons v _ w _ r _ hv hw hne hr =>
    exact ⟨v, w ++ r, rfl, hv, hw.neutral hne r, hr.blanks_append hw⟩

/-! ## Tokens that are read again -/

/-- Where a token is read there is no gap. -/
theorem Lexeme.gap_of_scan {b : UInt8} {r : Bytes} {l : Lexeme} (h : scan (b :: r) = .ok l)
    (r' : Bytes) : gap (b :: r') = 0 := by
  refine gap_of_not_begins ?_ ?_ r'
  · rw [← Bool.not_eq_true]
    intro hb
    have hblank : (b = 32 ∨ b = 9) ∨ b = 13 := by simpa [isBlank] using hb
    rcases hblank with (rfl | rfl) | rfl <;> cases h
  · rw [← Bool.not_eq_true]
    intro hb
    rw [eq_of_beq hb] at h
    cases h

namespace Cursor

/-- **A token is read again** from its own bytes, behind blanks and before bytes that no
token goes on with. -/
theorem Lies.again {c d c' : Cursor} {g q v x : Bytes} {b : UInt8} {t : Token}
    (h : c.Lies g b q t d) (hv : Blanks v) (hx : Neutral x)
    (hc : c'.rest = v ++ (b :: q ++ x)) :
    ∃ u d', c'.next = .ok (u, d') ∧ u.kind = t.kind ∧ u.text = t.text ∧ d'.rest = x := by
  have hscan := Lexeme.scan_append (.inl hx) h.scan rfl
  have hgap : SpanScript.gap c'.rest = v.length := by
    rw [hc, gap_blanks_append hv, List.cons_append, Lexeme.gap_of_scan h.scan, Nat.add_zero]
  have hlies : c'.Lies v b q
      ⟨t.kind, t.text, c'.location.after v, c'.offset + v.length,
        c'.offset + v.length + (q.length + 1)⟩
      ⟨x, c'.offset + v.length + (q.length + 1), c'.location.after (v ++ b :: q)⟩ :=
    ⟨hc, hgap, hscan, rfl, rfl, rfl, rfl, rfl⟩
  exact ⟨_, _, hlies.next, rfl, rfl, rfl⟩

/-! ## Words -/

/-- The kinds and texts of the tokens that come from a cursor on, and then the end. -/
inductive Words : Cursor → List (TokenKind × String) → Prop
  | eof {c d : Cursor} {t : Token} : c.next = .ok (t, d) → t.kind = .eof → Words c []
  | token {c d : Cursor} {t : Token} {σ : List (TokenKind × String)} : c.next = .ok (t, d) →
      t.kind ≠ .eof → Words d σ → Words c ((t.kind, t.text) :: σ)

/-- In blanks there is no token. -/
theorem words_blanks {c : Cursor} (h : Blanks c.rest) : c.Words [] := by
  have hgap : SpanScript.gap c.rest = c.rest.length := by
    have hall := gap_blanks_append h []
    rw [List.append_nil] at hall
    exact hall
  obtain ⟨t, d, hn, hk⟩ := c.next_of_scan (l := ⟨.eof, "", 0⟩) (by
    rw [hgap, List.drop_length]
    rfl)
  exact .eof hn hk

end Cursor

/-- The kind and the text of a token. -/
def Token.word (t : Token) : TokenKind × String := (t.kind, t.text)

namespace Cursor

variable {c d : Cursor} {τ : List Token}

theorem Reads.forall_kind_ne_eof (h : c.Reads τ d) : ∀ t ∈ τ, t.kind ≠ .eof := by
  induction h with
  | nil => exact fun t ht => absurd ht List.not_mem_nil
  | cons _ ht _ ih => exact List.forall_mem_cons.mpr ⟨ht, ih⟩

/-- The words of a walk that comes to the end. -/
theorem Reads.words {e : Cursor} {t : Token} (h : c.Reads τ d) (hn : d.next = .ok (t, e))
    (ht : t.kind = .eof) : c.Words (τ.map Token.word) := by
  induction h with
  | nil => exact .eof hn ht
  | cons hu hne _ ih => exact .token hu hne (ih hn)

/-- The same words come from the slices of the tokens, with blanks between them. -/
theorem Reads.words_spaced {text r : Bytes} {stop : Nat} (h : c.Reads τ d)
    (hc : text.window c.offset stop = c.rest) (hs : Spaced (τ.map (·.slice text)) r)
    {c' : Cursor} (hc' : c'.rest = r) : c'.Words (τ.map Token.word) := by
  induction h generalizing r c' with
  | nil =>
    cases hs with
    | nil hw => exact words_blanks (hc' ▸ hw)
  | @cons c d _ t τ hn ht _ ih =>
    obtain ⟨g, b, q, hl⟩ := exists_lies_of_next hn ht
    obtain ⟨hslice, -, hrest⟩ := hl.slice hc
    rw [List.map_cons, hslice] at hs
    obtain ⟨v, x, hr, hv, hx, hτ⟩ := hs.head
    obtain ⟨u, d', hu, hkind, htext, hd'⟩ := hl.again hv hx (hc'.trans hr)
    have hwords := ih hrest hτ hd'
    rw [List.map_cons, Token.word, ← hkind, ← htext]
    exact .token hu (hkind ▸ ht) hwords

/-- Reading tokens comes to the end, with the words and nothing else. -/
theorem Words.tokensWithin {σ : List (TokenKind × String)} (h : c.Words σ) {fuel : Nat}
    (hfuel : c.rest.length < fuel) :
    ∃ ts e, c.tokensWithin fuel = (ts, .ok e) ∧ ts.map Token.word = σ ++ [(.eof, "")] := by
  induction h generalizing fuel with
  | @eof c d t hn ht =>
    obtain ⟨n, rfl⟩ := Nat.exists_eq_succ_of_ne_zero (Nat.ne_zero_of_lt hfuel)
    rw [Cursor.tokensWithin, hn]
    simp only [if_pos ht]
    refine ⟨_, _, rfl, ?_⟩
    rw [List.map_singleton, Token.word, ht, (next_eof hn ht).text]
    rfl
  | @token c d t σ hn ht _ ih =>
    obtain ⟨n, rfl⟩ := Nat.exists_eq_succ_of_ne_zero (Nat.ne_zero_of_lt hfuel)
    have hlength := (Reads.single hn ht).length_le
    rw [List.length_singleton] at hlength
    obtain ⟨ts, e, hts, hwords⟩ := ih (show d.rest.length < n by omega)
    rw [Cursor.tokensWithin, hn]
    simp only [if_neg ht, hts]
    exact ⟨_, _, rfl, congrArg (t.word :: ·) hwords⟩

end Cursor

/-! ## Statements -/

/-- A reader does not tell apart cursors that the same words come from, but for places. -/
theorem bisimulates_words : Cursor.Bisimulates Location.forget Location.forget
    (fun c d => ∃ σ, c.Words σ ∧ d.Words σ) where
  token := by
    rintro c d c' t ⟨σ, hc, hd⟩ hn
    cases hc with
    | eof hn' ht =>
      rw [hn] at hn'
      cases hn'
      cases hd with
      | @eof _ d' u hu hk =>
        have hleft := Cursor.next_eof hn ht
        have hright := Cursor.next_eof hu hk
        have hnil : Blanks [] := fun b hb => absurd hb List.not_mem_nil
        refine ⟨u, d', hu, ⟨ht.trans hk.symm, hleft.text.trans hright.text.symm, rfl⟩, [], ?_, ?_⟩
        · exact Cursor.words_blanks (hleft.rest ▸ hnil)
        · exact Cursor.words_blanks (hright.rest ▸ hnil)
    | @token _ _ _ σ hn' _ hc' =>
      rw [hn] at hn'
      cases hn'
      generalize hσ : (t.kind, t.text) :: σ = ρ at hd
      cases hd with
      | eof => cases hσ
      | @token _ d' u ρ hu _ hd' =>
        injection hσ with hword hrest
        injection hword with hkind htext
        exact ⟨u, d', hu, ⟨hkind, htext, rfl⟩, σ, hc', hrest ▸ hd'⟩
  fault := by
    rintro c d x ⟨σ, hc, -⟩ hn
    cases hc with
    | eof hn' _ => rw [hn] at hn'; cases hn'
    | token hn' _ _ => rw [hn] at hn'; cases hn'

namespace Reader

variable {R : Cursor → Cursor → Prop} {f g : Location → Location} {s t : ReadState}

/-- The statements that come from a state on, `n` of them at most, and the fault that is
found in the place of one more. -/
def statements (types : List TypeName) (nesting : Nat) : Nat → ReadState →
    List Stmt × Option ParseFault
  | 0, _ => ([], none)
  | n + 1, s =>
    match next types nesting s with
    | (.ok stmt, s') =>
      let (stmts, fault) := statements types nesting n s'
      (stmt :: stmts, fault)
    | (.error fault, _) => ([], some fault)

/-- The same statements, and the same fault, but for their places. -/
def SameReading (f g : Location → Location) (x y : List Stmt × Option ParseFault) : Prop :=
  x.1.map (Stmt.relocate f) = y.1.map (Stmt.relocate g) ∧
    x.2.map (ParseFault.relocate f) = y.2.map (ParseFault.relocate g)

/-- States that are abreast have the same statements before them. -/
theorem Abreast.statements (types : List TypeName) (nesting : Nat) (h : Abreast s t) :
    ∀ n : Nat, statements types nesting n t = statements types nesting n s := by
  intro n
  induction n generalizing s t with
  | zero => rfl
  | succ n ih =>
    obtain ⟨hr, hst⟩ := steady_oneStatement types nesting s t h
    have hanswer : (next types nesting t).1 = (next types nesting s).1 := hr
    have hafter : Abreast (next types nesting s).2 (next types nesting t).2 := hst
    rw [Reader.statements, Reader.statements]
    generalize next types nesting s = x at hanswer hafter ⊢
    generalize next types nesting t = y at hanswer hafter ⊢
    obtain ⟨r, s'⟩ := x
    obtain ⟨r', t'⟩ := y
    obtain rfl : r' = r := hanswer
    cases r' with
    | error fault => rfl
    | ok stmt =>
      simp only
      rw [ih hafter]

/-- Readers at related cursors read the same. -/
theorem Related.statements (hR : Cursor.Bisimulates f g R) (types : List TypeName)
    (nesting : Nat) (h : Related R s t) :
    ∀ n : Nat, SameReading f g (statements types nesting n s) (statements types nesting n t) := by
  intro n
  induction n generalizing s t with
  | zero => exact ⟨rfl, rfl⟩
  | succ n ih =>
    rw [Reader.statements, Reader.statements]
    rcases agree_oneStatement (L := .ofCursors hR) types nesting True h with
      ⟨a, s', b, t', ha, hb, hab, h', -⟩ | ⟨x, s', y, t', hx, hy, hxy, -⟩
    · have hs : next types nesting s = (.ok a, s') := ha
      have ht : next types nesting t = (.ok b, t') := hb
      obtain ⟨hstmts, hfault⟩ := ih h'
      rw [hs, ht]
      refine ⟨?_, hfault⟩
      rw [List.map_cons, List.map_cons, hstmts]
      exact congrArg (· :: _) hab
    · have hs : next types nesting s = (.error x, s') := hx
      have ht : next types nesting t = (.error y, t') := hy
      rw [hs, ht]
      exact ⟨rfl, congrArg some hxy⟩

/-- Where the same tokens come, the same statements do. -/
theorem statements_alike (hR : Cursor.Bisimulates f g R) (types : List TypeName)
    (nesting : Nat) {c d : Cursor} (h : R c d) (n : Nat) :
    SameReading f g (statements types nesting n (.start c))
      (statements types nesting n (.start d)) := by
  -- both are set beside readers with a bound that is enough for either text
  have habreast (c : Cursor) (bound : Nat) (hb : c.rest.length < bound) :
      Abreast (.start c) ⟨c, false, c.offset, bound⟩ :=
    ⟨rfl, rfl, rfl, ready_start c, hb⟩
  have hc := habreast c (max c.rest.length d.rest.length + 1) (by omega)
  have hd := habreast d (max c.rest.length d.rest.length + 1) (by omega)
  have hrelated : Related R ⟨c, false, c.offset, max c.rest.length d.rest.length + 1⟩
      ⟨d, false, d.offset, max c.rest.length d.rest.length + 1⟩ := ⟨h, rfl, rfl⟩
  rw [← hc.statements types nesting n, ← hd.statements types nesting n]
  exact hrelated.statements hR types nesting n

end Reader

/-- **A text that is spelled anew has the same tokens and the same statements.**  Let the
tokens of a text be read without a fault, and let another text hold the bytes of these
tokens, with blanks between any two of them.  Then its tokens are read without a fault,
they have the same kinds and the same texts, and whatever types there are and however deep
statements may nest, the statements are the same but for their places, and so is the fault
that is found behind them. -/
theorem respelled_alike {text text' : Bytes} {ts : List Token} {e : Nat} (loc loc' : Location)
    (h : (Cursor.ofText text 0 text.length loc).tokens = (ts, .ok e))
    (hs : Spaced ((ts.filter (·.kind ≠ .eof)).map (·.slice text)) text') :
    (∃ ts' e', (Cursor.ofText text' 0 text'.length loc').tokens = (ts', .ok e') ∧
      ts'.map Token.word = ts.map Token.word) ∧
    ∀ types nesting n, Reader.SameReading Location.forget Location.forget
      (Reader.statements types nesting n (.start (.ofText text 0 text.length loc)))
      (Reader.statements types nesting n (.start (.ofText text' 0 text'.length loc'))) := by
  have hends := (Cursor.ofText text 0 text.length loc).tokens_end
  rw [h] at hends
  cases hends with
  | @eof d _ t τ hr hn ht =>
    have hne : ∀ u ∈ τ, u.kind ≠ .eof := hr.forall_kind_ne_eof
    have hfilter : (τ ++ [t]).filter (·.kind ≠ .eof) = τ := by
      rw [List.filter_append, List.filter_eq_self.mpr (by simpa using hne)]
      simp [ht]
    rw [hfilter] at hs
    have hrest : (Cursor.ofText text' 0 text'.length loc').rest = text' :=
      Bytes.window_length text' 0
    have hwords := hr.words hn ht
    have hwords' := hr.words_spaced rfl hs hrest
    obtain ⟨ts', e', hts', hmap⟩ := hwords'.tokensWithin (Nat.lt_succ_self _)
    refine ⟨⟨ts', e', hts', ?_⟩, fun types nesting n => ?_⟩
    · rw [hmap, List.map_append, List.map_singleton]
      congr 2
      exact Prod.ext ht.symm (Cursor.next_eof hn ht).text.symm
    · exact Reader.statements_alike bisimulates_words types nesting ⟨_, hwords, hwords'⟩ n

/-- An assignment and a name on one line, with a `#` in a string literal and a comment
behind: the slices are laid out with blanks, and the comment is left out. -/
theorem respelled_alike_comment :
    let text : Bytes := [97, 61, 39, 35, 39, 59, 98, 35, 99]
    let text' : Bytes := [97, 32, 61, 9, 39, 35, 39, 32, 59, 32, 32, 98]
    let ts : List Token := [⟨.ident, "a", ⟨1, 1⟩, 0, 1⟩, ⟨.equals, "=", ⟨1, 2⟩, 1, 2⟩,
      ⟨.string, "#", ⟨1, 3⟩, 2, 5⟩, ⟨.newline, "\n", ⟨1, 6⟩, 5, 6⟩, ⟨.ident, "b", ⟨1, 7⟩, 6, 7⟩,
      ⟨.eof, "", ⟨1, 10⟩, 9, 9⟩]
    (Cursor.ofText text 0 9 ⟨1, 1⟩).tokens = (ts, .ok 9) ∧
      Spaced ((ts.filter (·.kind ≠ .eof)).map (·.slice text)) text' ∧
      (∃ ts' e', (Cursor.ofText text' 0 12 ⟨1, 1⟩).tokens = (ts', .ok e') ∧
        ts'.map Token.word = ts.map Token.word) ∧
      Reader.SameReading Location.forget Location.forget
        ([.assign ⟨1, 1⟩ "a" (.literal ⟨1, 3⟩ (.str "#")) none, .evaluate (.name ⟨1, 7⟩ "b")],
          some (.located .statementExpected ⟨1, 10⟩))
        (Reader.statements ["INT"] 8 3 (.start (.ofText text' 0 12 ⟨1, 1⟩))) := by
  intro text text' ts
  have hts : (Cursor.ofText text 0 9 ⟨1, 1⟩).tokens = (ts, .ok 9) := by cbv
  have hspaced : Spaced [[97], [61], [39, 35, 39], [59], [98]] text' := by
    refine .cons (v := []) (w := [32]) (by decide) (by decide) (by decide) ?_
    refine .cons (v := []) (w := [9]) (by decide) (by decide) (by decide) ?_
    refine .cons (v := []) (w := [32]) (by decide) (by decide) (by decide) ?_
    refine .cons (v := []) (w := [32, 32]) (by decide) (by decide) (by decide) ?_
    exact .one (v := []) (w := []) (by decide) (by decide)
  have hread : Reader.statements ["INT"] 8 3 (.start (.ofText text 0 9 ⟨1, 1⟩)) =
      ([.assign ⟨1, 1⟩ "a" (.literal ⟨1, 3⟩ (.str "#")) none, .evaluate (.name ⟨1, 7⟩ "b")],
        some (.located .statementExpected ⟨1, 10⟩)) := by cbv
  obtain ⟨htokens, hstatements⟩ := respelled_alike ⟨1, 1⟩ ⟨1, 1⟩ hts hspaced
  exact ⟨hts, hspaced, htokens, hread ▸ hstatements ["INT"] 8 3⟩

end SpanScript
