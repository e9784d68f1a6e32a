import SpanScript.Proofs.Token.Reading

/-!
# Tokens tile a text

The tokens of a part of a text are cut out of it: laid end to end, with the gaps
before them, they are the bytes of that part.  A gap holds blanks, and maybe a
comment behind them, so no other byte is left out and none is used twice.

* `gap_isGap`: what is dropped before a token is a gap.
* `Cursor.tokens_end`: reading tokens comes to the end or to a fault; it never
  runs out of turns before.
* `Tiles`: what the tokens of a text that has no fault look like.
* `tokens_tile`: tokens tile the bytes between the bounds, and depend on no
  other byte.
-/

namespace SpanScript

open Alphabet

/-! ## Gaps -/

/-- What may lie before a token, with `r` behind: blanks, and then maybe a comment,
which goes on up to a newline or to the end. -/
inductive IsGap (r : Bytes) : Bytes → Prop
  | nil : IsGap r []
  | blank {b : UInt8} {g : Bytes} : isBlank b = true → IsGap r g → IsGap r (b :: g)
  | comment {c : Bytes} : Bytes.newline ∉ c → (∀ b ∈ r.head?, b = Bytes.newline) →
      IsGap r (hash :: c)

/-- What is dropped before a token is a gap. -/
theorem gap_isGap : ∀ bs : Bytes, IsGap (bs.drop (gap bs)) (bs.take (gap bs)) := by
  intro bs
  induction bs with
  | nil => exact .nil
  | cons b bs ih =>
    by_cases h1 : isBlank b = true
    · rw [gap_blank h1, List.drop_succ_cons, List.take_succ_cons]
      exact .blank h1 ih
    by_cases h2 : (b == hash) = true
    · obtain rfl := eq_of_beq h2
      have htake : bs.takeWhile (· != Bytes.newline) =
          bs.take (bs.takeWhile (· != Bytes.newline)).length :=
        List.prefix_iff_eq_take.mp (List.takeWhile_prefix _)
      rw [gap_hash, Nat.add_comm, List.drop_succ_cons, List.take_succ_cons, ← htake,
        ← dropWhile_eq_drop]
      refine .comment (fun hmem => ?_) fun b hb => ?_
      · exact absurd (List.mem_takeWhile_imp hmem) (by decide)
      · have hhead := List.head?_dropWhile_not (· != Bytes.newline) bs
        rw [Option.mem_def.mp hb] at hhead
        simpa using hhead
    · rw [gap_of_not_begins (Bool.eq_false_iff.mpr h1) (Bool.eq_false_iff.mpr h2)]
      exact .nil

namespace Cursor

/-! ## Up to the end -/

/-- The end `t` is read behind the gap that is left, and `d` has nothing left. -/
structure Finishes (c : Cursor) (t : Token) (d : Cursor) : Prop where
  gap : IsGap [] c.rest
  text : t.text = ""
  start : t.start = c.offset + c.rest.length
  stop : t.stop = t.start
  rest : d.rest = []

/-- At the end there is a gap and nothing else. -/
theorem next_eof {c d : Cursor} {t : Token} (h : c.next = .ok (t, d)) (ht : t.kind = .eof) :
    c.Finishes t d := by
  have hgap := gap_isGap c.rest
  unfold next at h
  simp only [move] at h
  cases hd : c.rest.drop (SpanScript.gap c.rest) with
  | nil =>
    rw [hd, Lexeme.scan] at h
    cases h
    have hall : SpanScript.gap c.rest = c.rest.length :=
      Nat.le_antisymm (gap_le _) (List.drop_eq_nil_iff.mp hd)
    rw [hd, hall, List.take_length] at hgap
    exact ⟨hgap, rfl, congrArg (c.offset + ·) hall, rfl, rfl⟩
  | cons b bs =>
    rw [hd] at h
    split at h
    · next l hl =>
      cases h
      exact absurd ht (Lexeme.length_of_scan hl).1
    · cases h

/-- How reading tokens comes out: with the end, or with the fault that comes first. -/
inductive Ends (c : Cursor) : List Token × Except LexFault Nat → Prop
  | eof {d e : Cursor} {t : Token} {τ : List Token} : c.Reads τ d → d.next = .ok (t, e) →
      t.kind = .eof → Ends c (τ ++ [t], .ok e.offset)
  | fault {d : Cursor} {f : LexFault} {τ : List Token} : c.Reads τ d → d.next = .error f →
      Ends c (τ, .error f)

theorem Ends.cons {c d : Cursor} {t : Token} {ts : List Token} {e : Except LexFault Nat}
    (hn : c.next = .ok (t, d)) (ht : t.kind ≠ .eof) (h : d.Ends (ts, e)) :
    c.Ends (t :: ts, e) := by
  cases h with
  | eof hr he hk => exact .eof (.cons hn ht hr) he hk
  | fault hr he => exact .fault (.cons hn ht hr) he

theorem tokensWithin_end : ∀ (fuel : Nat) (c : Cursor), c.rest.length < fuel →
    c.Ends (c.tokensWithin fuel) := by
  intro fuel
  induction fuel with
  | zero => exact fun c h => absurd h (Nat.not_lt_zero _)
  | succ fuel ih =>
    intro c h
    rw [tokensWithin]
    split
    · next f hf => exact .fault .nil hf
    · next t d hn =>
      split
      · next ht => exact .eof .nil hn ht
      · next ht =>
        -- the token took a byte, so there are turns enough for what is left
        have hlength := (Reads.single hn ht).length_le
        rw [List.length_singleton] at hlength
        exact (ih d (by omega)).cons hn ht

/-- **Reading tokens comes to the end** or to a fault, whatever the bytes are. -/
theorem tokens_end (c : Cursor) : c.Ends c.tokens :=
  tokensWithin_end _ c (Nat.lt_succ_self _)

end Cursor

/-! ## Tiles -/

def Token.slice (t : Token) (text : Bytes) : Bytes := text.window t.start t.stop

/-- The tokens tile the bytes that begin at an offset of the text: each is there
behind a gap, takes a byte at least, and begins where the one before it or the gap
ends, and at the end of the bytes there is the end. -/
inductive Tiles (text : Bytes) : Nat → Bytes → List Token → Prop
  | eof {i : Nat} {g : Bytes} {t : Token} : IsGap [] g → t.kind = .eof →
      t.start = i + g.length → t.stop = t.start → Tiles text i g [t]
  | token {i : Nat} {g r : Bytes} {t : Token} {ts : List Token} :
      IsGap (t.slice text ++ r) g → t.slice text ≠ [] → t.kind ≠ .eof →
      t.start = i + g.length → t.stop = t.start + (t.slice text).length →
      Tiles text t.stop r ts → Tiles text i (g ++ (t.slice text ++ r)) (t :: ts)

/-- The token `t` comes before `u`, and they share no byte. -/
def Token.Before (t u : Token) : Prop := t.start < u.start ∧ t.stop ≤ u.start

namespace Tiles

variable {text r : Bytes} {i : Nat} {ts : List Token}

/-- All tokens lie in the bytes that they tile. -/
theorem within (h : Tiles text i r ts) : ∀ t ∈ ts, i ≤ t.start ∧ t.start ≤ t.stop ∧
    t.stop ≤ i + r.length ∧ (t.kind ≠ .eof → t.start < t.stop) := by
  induction h with
  | eof _ hk hstart hstop =>
    intro u hu
    obtain rfl := List.mem_singleton.mp hu
    exact ⟨by omega, by omega, by omega, fun hne => absurd hk hne⟩
  | token _ hslice _ hstart hstop _ ih =>
    intro u hu
    have hpos := List.length_pos_iff.mpr hslice
    simp only [List.length_append]
    rcases List.mem_cons.mp hu with rfl | hu
    · exact ⟨by omega, by omega, by omega, fun _ => by omega⟩
    · obtain ⟨h1, h2, h3, h4⟩ := ih u hu
      exact ⟨by omega, h2, by omega, h4⟩

/-- The tokens are in order. -/
theorem ordered (h : Tiles text i r ts) : ts.Pairwise Token.Before := by
  induction h with
  | eof => exact List.pairwise_singleton _ _
  | token _ hslice _ _ hstop h ih =>
    refine List.pairwise_cons.mpr ⟨fun u hu => ?_, ih⟩
    have hpos := List.length_pos_iff.mpr hslice
    have := (h.within u hu).1
    exact ⟨by omega, this⟩

/-- The last token, and no other, is the end. -/
theorem last (h : Tiles text i r ts) : ∃ τ t, ts = τ ++ [t] ∧ (∀ u ∈ τ, u.kind ≠ .eof) ∧
    t.kind = .eof ∧ t.start = i + r.length ∧ t.stop = i + r.length := by
  induction h with
  | eof _ hk hstart hstop =>
    exact ⟨[], _, rfl, fun _ h => absurd h List.not_mem_nil, hk, hstart, hstop.trans hstart⟩
  | @token i g r t ts _ _ hne hstart hstop _ ih =>
    obtain ⟨τ, u, rfl, hτ, hk, hu⟩ := ih
    simp only [List.length_append]
    refine ⟨t :: τ, u, rfl, ?_, hk, by omega⟩
    exact List.forall_mem_cons.mpr ⟨hne, hτ⟩

end Tiles

namespace Cursor

/-- What a token was read from, in the text that the cursor goes over. -/
theorem Lies.slice {text g q : Bytes} {stop : Nat} {c d : Cursor} {b : UInt8} {t : Token}
    (h : c.Lies g b q t d) (hc : text.window c.offset stop = c.rest) :
    t.slice text = b :: q ∧ t.stop = t.start + (b :: q).length ∧
      text.window d.offset stop = d.rest := by
  have hbehind : text.window t.start stop = b :: q ++ d.rest := by
    rw [h.start]
    exact Bytes.window_past (hc.trans h.rest)
  have hstop : t.stop = t.start + (b :: q).length := by
    rw [h.stop, h.offset, h.start, List.length_cons]
  refine ⟨?_, hstop, ?_⟩
  · rw [Token.slice, hstop]
    exact Bytes.window_of_append hbehind
  · rw [← h.stop, hstop]
    exact Bytes.window_past hbehind

/-- The tokens on the way to the end tile the bytes before it. -/
theorem Reads.tiles {text : Bytes} {stop : Nat} {c d e : Cursor} {t : Token} {τ : List Token}
    (h : c.Reads τ d) (hc : text.window c.offset stop = c.rest)
    (hn : d.next = .ok (t, e)) (ht : t.kind = .eof) :
    Tiles text c.offset c.rest (τ ++ [t]) := by
  induction h with
  | nil =>
    have hend := next_eof hn ht
    exact .eof hend.gap ht hend.start hend.stop
  | @cons c d' _ u τ hu hne _ ih =>
    obtain ⟨g, b, q, hl⟩ := exists_lies_of_next hu hne
    obtain ⟨hslice, hstop, hrest⟩ := hl.slice hc
    have htiles := ih hrest hn
    have hgap := gap_isGap c.rest
    rw [hl.gap, hl.rest, List.take_left, List.drop_left] at hgap
    rw [hl.rest]
    rw [← hl.stop] at htiles
    rw [← List.cons_append, ← hslice] at hgap ⊢
    rw [← hslice] at hstop
    exact .token hgap (by rw [hslice]; exact List.cons_ne_nil _ _) hne hl.start hstop htiles

end Cursor

/-- **Tokens tile the text.**  Reading the tokens between two bounds of a text comes to
the end or to a fault.  If it comes to the end, the tokens tile the bytes between the
bounds: they are in order, each but the last takes bytes, and the last is the end, at the
bound.  What is read, a fault too, depends on the bytes between the bounds and on no
other, and so does where the trivia at the first bound ends. -/
theorem tokens_tile {text : Bytes} (start : Nat) {stop : Nat} (loc : Location)
    (hstop : stop ≤ text.length) :
    (Cursor.ofText text start stop loc).Ends (Cursor.ofText text start stop loc).tokens ∧
    (∀ ts e, (Cursor.ofText text start stop loc).tokens = (ts, .ok e) →
      Tiles text start (text.window start stop) ts ∧
      ts.Pairwise Token.Before ∧
      (∀ t ∈ ts, start ≤ t.start ∧ t.stop ≤ max start stop ∧
        (t.kind ≠ .eof → t.start < t.stop)) ∧
      ∃ τ t, ts = τ ++ [t] ∧ (∀ u ∈ τ, u.kind ≠ .eof) ∧ t.kind = .eof ∧
        t.start = max start stop ∧ t.stop = max start stop) ∧
    ∀ text' : Bytes, (∀ i < stop, start ≤ i → text'[i]? = text[i]?) →
      (Cursor.ofText text' start stop loc).tokens = (Cursor.ofText text start stop loc).tokens ∧
      pastTrivia text' start stop = pastTrivia text start stop := by
  have hends := (Cursor.ofText text start stop loc).tokens_end
  refine ⟨hends, fun ts e h => ?_, fun text' h => ?_⟩
  · rw [h] at hends
    have htiles : Tiles text start (text.window start stop) ts := by
      cases hends with
      | eof hr hn hk => exact hr.tiles rfl hn hk
    have hend : start + (text.window start stop).length = max start stop := by
      rw [Bytes.length_window]
      omega
    refine ⟨htiles, htiles.ordered, fun t ht => ?_, ?_⟩
    · obtain ⟨h1, -, h2, h3⟩ := htiles.within t ht
      exact ⟨h1, hend ▸ h2, h3⟩
    · rw [← hend]
      exact htiles.last
  · have hwindow := Bytes.window_congr h
    rw [Cursor.ofText, Cursor.ofText, pastTrivia_eq_span, pastTrivia_eq_span, hwindow]
    exact ⟨rfl, rfl⟩

/-- The bound cuts a comment off its newline, and the last byte of the text is not
read; neither is the first. -/
theorem tokens_tile_comment :
    let text : Bytes := [120, 61, 49, 32, 35, 99, 10, 121]
    let text' : Bytes := [64, 61, 49, 32, 35, 99]
    let ts : List Token := [⟨.equals, "=", ⟨1, 2⟩, 1, 2⟩, ⟨.number, "1", ⟨1, 3⟩, 2, 3⟩,
      ⟨.eof, "", ⟨1, 7⟩, 6, 6⟩]
    6 ≤ text.length ∧ (∀ i < 6, 1 ≤ i → text'[i]? = text[i]?) ∧
    (Cursor.ofText text 1 6 ⟨1, 2⟩).tokens = (ts, .ok 6) ∧
    (Cursor.ofText text' 1 6 ⟨1, 2⟩).tokens = (ts, .ok 6) ∧
    Tiles text 1 [61, 49, 32, 35, 99] ts ∧ ts.Pairwise Token.Before := by
  intro text text' ts
  have hlength : 6 ≤ text.length := by decide
  have hagree : ∀ i < 6, 1 ≤ i → text'[i]? = text[i]? := by decide
  have hread : (Cursor.ofText text 1 6 ⟨1, 2⟩).tokens = (ts, .ok 6) := by decide
  obtain ⟨-, htiles, hsame⟩ := tokens_tile 1 ⟨1, 2⟩ hlength
  obtain ⟨h1, h2, -, -⟩ := htiles ts 6 hread
  exact ⟨hlength, hagree, hread, (hsame text' hagree).1.trans hread, h1, h2⟩

end SpanScript
