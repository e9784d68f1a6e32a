import SpanScript.Proofs.Token.Lexeme
import SpanScript.Proofs.Token.Trivia

/-!
# Reading tokens

`Cursor.Reads c τ d`: from `c` on the tokens `τ` come, and `d` is behind the
last of them.  The end is not among them.

* `Cursor.Reads.append`, `Cursor.Reads.split`, `Cursor.Reads.unique`: reading is
  a walk, and there is one only.
* `Cursor.Reads.length_le`: a token takes a byte at least.
* `Cursor.Reads.exchange`: tokens do not change when the bytes behind them are
  exchanged for bytes that go on with no token.
* `next_of_closing`: behind a statement that the text or the span closes after,
  the next token is the end, a newline or a brace.
-/

namespace SpanScript

open Alphabet

namespace Cursor

/-! ## One token -/

/-- The token `t` lies behind the gap `g`; it is the byte `b` and the bytes `q`. -/
structure Lies (c : Cursor) (g : Bytes) (b : UInt8) (q : Bytes) (t : Token) (d : Cursor) :
    Prop where
  rest : c.rest = g ++ b :: (q ++ d.rest)
  gap : gap c.rest = g.length
  scan : Lexeme.scan (b :: (q ++ d.rest)) = .ok ⟨t.kind, t.text, q.length + 1⟩
  place : t.location = c.location.after g
  start : t.start = c.offset + g.length
  stop : t.stop = d.offset
  offset : d.offset = c.offset + g.length + (q.length + 1)
  location : d.location = c.location.after (g ++ b :: q)

theorem Lies.next {c d : Cursor} {g q : Bytes} {b : UInt8} {t : Token} (h : c.Lies g b q t d) :
    c.next = .ok (t, d) := by
  obtain ⟨kind, text, place, start, stop⟩ := t
  obtain ⟨rest, offset, location⟩ := d
  obtain ⟨h1, h2, h3, h4, h5, h6, h7, h8⟩ := h
  simp only at h1 h3 h4 h5 h6 h7 h8
  have hd : c.rest.drop g.length = b :: (q ++ rest) := by rw [h1, List.drop_left]
  have ht : c.rest.take g.length = g := by rw [h1, List.take_left]
  have hq : (b :: (q ++ rest)).take (q.length + 1) = b :: q := by
    rw [← List.cons_append]
    exact List.take_left' rfl
  have hr : (b :: (q ++ rest)).drop (q.length + 1) = rest := by
    rw [← List.cons_append]
    exact List.drop_left' rfl
  unfold Cursor.next
  simp only [move, h2, hd, ht, h3, hq, hr]
  rw [h4, h5, h6, h7, h8, Location.after_append]

theorem exists_lies_of_next {c d : Cursor} {t : Token} (h : c.next = .ok (t, d))
    (ht : t.kind ≠ .eof) : ∃ g b q, c.Lies g b q t d := by
  unfold Cursor.next at h
  simp only [move] at h
  split at h
  · next l hl =>
    cases h
    cases hd : c.rest.drop (SpanScript.gap c.rest) with
    | nil =>
      rw [hd, Lexeme.scan] at hl
      cases hl
      exact absurd rfl ht
    | cons b bs =>
      rw [hd] at hl
      obtain ⟨-, h1, h2⟩ := Lexeme.length_of_scan hl
      obtain ⟨kind, text, n⟩ := l
      obtain ⟨m, rfl⟩ : ∃ m, n = m + 1 := ⟨n - 1, by simp only at h1; omega⟩
      simp only at h1 h2 ⊢
      have hg : (c.rest.take (SpanScript.gap c.rest)).length = SpanScript.gap c.rest :=
        List.length_take_of_le (gap_le _)
      have hm : (bs.take m).length = m := List.length_take_of_le (Nat.le_of_succ_le_succ h2)
      refine ⟨c.rest.take (SpanScript.gap c.rest), b, bs.take m, ?_, hg.symm, ?_, rfl, ?_, rfl,
        ?_, ?_⟩
      · rw [List.drop_succ_cons, List.take_append_drop, ← hd, List.take_append_drop]
      · rw [List.drop_succ_cons, List.take_append_drop, hm]
        exact hl
      · rw [hg]
      · rw [hg, hm]
      · rw [Location.after_append, List.take_succ_cons]
  · cases h

/-- The bytes up to and with a token. -/
theorem Lies.split {c d : Cursor} {g q : Bytes} {b : UInt8} {t : Token} (h : c.Lies g b q t d) :
    c.rest = (g ++ b :: q) ++ d.rest ∧ d.offset = c.offset + (g ++ b :: q).length := by
  refine ⟨by rw [h.rest, List.append_assoc, List.cons_append], ?_⟩
  rw [h.offset, List.length_append, List.length_cons, Nat.add_assoc]

/-- **A token does not change with what comes behind it.** -/
theorem Lies.exchange {c d : Cursor} {g q : Bytes} {b : UInt8} {t : Token} (h : c.Lies g b q t d)
    {r : Bytes} (hr : Replaces d.rest r) :
    Lies ⟨(g ++ b :: q) ++ r, c.offset, c.location⟩ g b q t ⟨r, d.offset, d.location⟩ where
  rest := by rw [List.append_assoc, List.cons_append]
  gap := by
    rw [List.append_assoc, List.cons_append]
    exact gap_append g (h.rest ▸ h.gap)
  scan := Lexeme.scan_append hr h.scan rfl
  place := h.place
  start := h.start
  stop := h.stop
  offset := h.offset
  location := h.location

/-- No token begins with a dot. -/
theorem head_ne_dot_of_next {c : Cursor} {x : Token × Cursor} (h : c.next = .ok x) :
    c.rest.head? ≠ some dot := by
  intro e
  cases hc : c.rest with
  | nil => rw [hc] at e; cases e
  | cons b bs =>
    rw [hc] at e
    obtain rfl : b = dot := by simpa using e
    unfold Cursor.next at h
    have hg : SpanScript.gap (dot :: bs) = 0 := gap_of_not_begins (by decide) (by decide) bs
    simp only [move, hc, hg, List.drop_zero, Lexeme.scan_dot] at h
    cases h

/-! ## Walks -/

/-- The tokens `τ` come from `c` on, and `d` is behind the last of them. -/
inductive Reads : Cursor → List Token → Cursor → Prop
  | nil {c : Cursor} : Reads c [] c
  | cons {c d e : Cursor} {t : Token} {τ : List Token} : c.next = .ok (t, d) → t.kind ≠ .eof →
      Reads d τ e → Reads c (t :: τ) e

namespace Reads

variable {c d e : Cursor} {τ σ : List Token}

theorem single {t : Token} (h : c.next = .ok (t, d)) (ht : t.kind ≠ .eof) : Reads c [t] d :=
  .cons h ht .nil

theorem append (h : Reads c τ d) (h' : Reads d σ e) : Reads c (τ ++ σ) e := by
  induction h with
  | nil => exact h'
  | cons hn ht _ ih => exact .cons hn ht (ih h')

theorem split (h : Reads c (τ ++ σ) e) : ∃ d, Reads c τ d ∧ Reads d σ e := by
  induction τ generalizing c with
  | nil => exact ⟨c, .nil, h⟩
  | cons t τ ih =>
    cases h with
    | cons hn ht h =>
      obtain ⟨d, h1, h2⟩ := ih h
      exact ⟨d, .cons hn ht h1, h2⟩

theorem unique (h : Reads c τ d) (h' : Reads c τ e) : d = e := by
  induction h with
  | nil => cases h'; rfl
  | cons hn _ _ ih =>
    cases h' with
    | cons hn' _ h' =>
      rw [hn] at hn'
      cases hn'
      exact ih h'

/-- The bytes that are walked over. -/
theorem exists_bytes (h : Reads c τ d) : ∃ p, c.rest = p ++ d.rest ∧
    d.offset = c.offset + p.length ∧ d.location = c.location.after p ∧ τ.length ≤ p.length := by
  induction h with
  | nil => exact ⟨[], rfl, rfl, rfl, Nat.le_refl _⟩
  | cons hn ht _ ih =>
    obtain ⟨g, b, q, hl⟩ := exists_lies_of_next hn ht
    obtain ⟨p, h1, h2, h3, h4⟩ := ih
    obtain ⟨hs, ho⟩ := hl.split
    refine ⟨(g ++ b :: q) ++ p, ?_, ?_, ?_, ?_⟩
    · rw [hs, h1, ← List.append_assoc]
    · have hp : (g ++ b :: q ++ p).length = (g ++ b :: q).length + p.length := List.length_append
      rw [h2, ho, hp, Nat.add_assoc]
    · rw [h3, hl.location, Location.after_append _ (g ++ b :: q)]
    · simp only [List.length_append, List.length_cons]
      omega

/-- A walk over tokens of a text ends at the cursor of the text at that offset. -/
theorem eq_ofText {text : Bytes} {start stop : Nat} {loc : Location}
    (h : Reads (.ofText text start stop loc) τ d) :
    d = .ofText text d.offset stop (loc.after (text.window start d.offset)) := by
  obtain ⟨p, hp, ho, hl, -⟩ := h.exists_bytes
  have hrest : text.window start stop = p ++ d.rest := hp
  have hoffset : d.offset = start + p.length := ho
  have hlocation : d.location = loc.after p := hl
  rw [ofText, hoffset, Bytes.window_of_append hrest, Bytes.window_past hrest, ← hlocation,
    ← hoffset]

theorem length_le (h : Reads c τ d) : d.rest.length + τ.length ≤ c.rest.length := by
  obtain ⟨p, h1, -, -, h4⟩ := h.exists_bytes
  rw [h1, List.length_append]
  omega

/-- A walk ends at one place for an offset. -/
theorem eq_of_offset (h : Reads c τ d) (h' : Reads c σ e) (ho : d.offset = e.offset) : d = e := by
  obtain ⟨p, hp, hd, hl, -⟩ := h.exists_bytes
  obtain ⟨q, hq, he, hl', -⟩ := h'.exists_bytes
  have hlength : p.length = q.length := by omega
  obtain ⟨rfl, hrest⟩ := List.append_inj (hp.symm.trans hq) hlength
  cases d
  cases e
  simp only at ho hrest hl hl'
  rw [ho, hrest, hl, hl']

/-- Walks over the same tokens from one offset end at one offset. -/
theorem offset_eq {c' d' : Cursor} (h : Reads c τ d) (h' : Reads c' τ d')
    (ho : c'.offset = c.offset) : d'.offset = d.offset := by
  induction h generalizing c' with
  | nil => cases h'; exact ho
  | cons hn ht _ ih =>
    cases h' with
    | cons hn' _ h' =>
      obtain ⟨_, _, _, hl⟩ := exists_lies_of_next hn ht
      obtain ⟨_, _, _, hl'⟩ := exists_lies_of_next hn' ht
      exact ih h' (hl'.stop.symm.trans hl.stop)

/-- **Tokens do not change with what comes behind them.** -/
theorem exchange {p r : Bytes} (h : Reads c τ d) (hp : c.rest = p ++ d.rest) (hr : Neutral r) :
    Reads ⟨p ++ r, c.offset, c.location⟩ τ ⟨r, d.offset, d.location⟩ := by
  induction h generalizing p with
  | @nil c =>
    obtain rfl : p = [] := List.append_left_eq_self.mp hp.symm
    exact .nil
  | @cons c d e t τ hn ht hτ ih =>
    obtain ⟨g, b, q, hl⟩ := exists_lies_of_next hn ht
    obtain ⟨p', hd, -, -, hτp⟩ := hτ.exists_bytes
    have hs := hl.split.1
    rw [hp, hd, ← List.append_assoc] at hs
    obtain rfl := List.append_cancel_right hs
    -- the token behind `t` is still there, or there was none and `r` is now
    have hrep : Replaces d.rest (p' ++ r) := by
      cases p' with
      | nil => exact .inl hr
      | cons b' p' =>
        refine .inr ⟨by rw [hd]; rfl, ?_⟩
        cases hτ with
        | nil =>
          have := congrArg List.length hd
          simp only [List.length_append, List.length_cons] at this
          omega
        | cons hn' _ _ =>
          have := head_ne_dot_of_next hn'
          rwa [hd] at this
    rw [List.append_assoc]
    exact .cons (hl.exchange hrep).next ht (ih hd)

end Reads

end Cursor

/-! ## What closes a statement -/

/-- The marker that closes a statement in a template, unless another is asked for. -/
def closeBraces : Bytes := [125, 125]

/-- What may stand behind a statement: nothing, or trivia and then closing
braces. -/
def Closing (r : Bytes) : Prop := r = [] ∨ ∃ w t, IsTrivia w ∧ r = w ++ (closeBraces ++ t)

/-- The kinds of tokens that come first behind a statement that is closed. -/
def Closes (k : TokenKind) : Prop := k = .eof ∨ k = .newline ∨ k = .rbrace

theorem gap_separator {b : UInt8} (h : isSeparator b = true) (bs : Bytes) : gap (b :: bs) = 0 := by
  have hb : b = 10 ∨ b = 59 := by simpa [isSeparator, Bytes.newline] using h
  rcases hb with rfl | rfl <;> exact gap_of_not_begins (by decide) (by decide) bs

/-- Blanks and nothing else lie before a byte that begins no trivia. -/
theorem gap_blanks {w : Bytes} {b : UInt8} (hw : ∀ a ∈ w, isBlank a = true)
    (hb : beginsTrivia b = false) (r : Bytes) : gap (w ++ b :: r) = w.length := by
  obtain ⟨h1, h2⟩ := beginsTrivia_eq_false hb
  rw [gap_blanks_append hw, gap_of_not_begins (Bool.or_eq_false_iff.mp h1).1 h2, Nat.add_zero]

/-- No token goes on with blanks, or with a byte of no name. -/
theorem neutral_blanks {w : Bytes} {b : UInt8} (hw : ∀ a ∈ w, isBlank a = true)
    (hb : isNamePart b = false) (r : Bytes) : Neutral (w ++ b :: r) := by
  intro c hc
  cases w with
  | nil =>
    obtain rfl : b = c := Option.some.inj hc
    exact hb
  | cons a w =>
    obtain rfl : a = c := Option.some.inj hc
    have hblank : (a = 32 ∨ a = 9) ∨ a = 13 := by
      simpa [isBlank] using hw a List.mem_cons_self
    rcases hblank with (rfl | rfl) | rfl <;> decide

theorem Closing.neutral {r : Bytes} (h : Closing r) : Neutral r := by
  rcases h with rfl | ⟨w, t, hw, rfl⟩
  · exact fun b hb => nomatch hb
  · intro a ha
    cases hw with
    | nil =>
      obtain rfl : a = 125 := by simpa [closeBraces] using ha.symm
      decide
    | @byte b w hb _ =>
      obtain rfl : a = b := by simpa using ha.symm
      have hcases : a = 32 ∨ a = 9 ∨ a = 13 ∨ a = 10 ∨ a = 59 := by
        simpa [isBlank, isSeparator, Bytes.newline, or_assoc] using hb
      rcases hcases with rfl | rfl | rfl | rfl | rfl <;> decide
    | comment _ _ =>
      obtain rfl : a = hash := by simpa using ha.symm
      decide

/-- The first token that closes. -/
theorem scan_of_isTrivia {w : Bytes} (h : IsTrivia w) (t : Bytes) :
    ∃ l, Lexeme.scan ((w ++ (closeBraces ++ t)).drop (gap (w ++ (closeBraces ++ t)))) = .ok l ∧
      Closes l.kind := by
  induction h with
  | nil =>
    have hg : gap (closeBraces ++ t) = 0 := gap_of_not_begins (by decide) (by decide) _
    rw [List.nil_append, hg]
    exact ⟨_, rfl, .inr (.inr rfl)⟩
  | @byte b w hb _ ih =>
    rw [List.cons_append]
    by_cases h1 : isBlank b = true
    · rw [gap_blank h1, List.drop_succ_cons]
      exact ih
    · have h2 : isSeparator b = true := by simpa [h1] using hb
      rw [gap_separator h2, List.drop_zero, Lexeme.scan, if_pos h2]
      exact ⟨_, rfl, .inr (.inl rfl)⟩
  | @comment c w hc _ _ =>
    have hg : gap (hash :: (c ++ Bytes.newline :: (w ++ (closeBraces ++ t)))) = c.length + 1 := by
      rw [gap_hash, List.takeWhile_append_of_pos, List.takeWhile_cons_of_neg (by simp),
        List.append_nil, Nat.add_comm]
      intro b hb
      rw [bne_iff_ne]
      rintro rfl
      exact hc hb
    rw [List.cons_append, List.append_assoc, List.cons_append, hg, List.drop_succ_cons,
      List.drop_left, Lexeme.scan, if_pos (by decide)]
    exact ⟨_, rfl, .inr (.inl rfl)⟩

theorem Cursor.next_of_scan {c : Cursor} {l : Lexeme}
    (h : Lexeme.scan (c.rest.drop (gap c.rest)) = .ok l) :
    ∃ t d, c.next = .ok (t, d) ∧ t.kind = l.kind := by
  unfold Cursor.next
  simp only [move, h]
  exact ⟨_, _, rfl, rfl⟩

/-- Behind a statement that is closed a token can be read, and it is one that
closes. -/
theorem next_of_closing {c : Cursor} (h : Closing c.rest) :
    ∃ t d, c.next = .ok (t, d) ∧ Closes t.kind := by
  rcases h with h | ⟨w, t, hw, h⟩
  · obtain ⟨t, d, hn, hk⟩ := c.next_of_scan (l := ⟨.eof, "", 0⟩) (by rw [h]; rfl)
    exact ⟨t, d, hn, .inl hk⟩
  · obtain ⟨l, hl, hk⟩ := scan_of_isTrivia hw t
    rw [← h] at hl
    obtain ⟨t, d, hn, e⟩ := c.next_of_scan hl
    exact ⟨t, d, hn, by rwa [e]⟩

end SpanScript
