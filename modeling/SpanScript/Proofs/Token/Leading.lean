import SpanScript.Proofs.Token.Walk
import SpanScript.Token.Trivia

/-!
# What lies before the first token

Two scanners pass over what means nothing.  `pastTrivia` goes over blanks, separators and comments
at once; a lexer drops a gap before each token, and a separator is a token, a newline.  So the
second one comes to the same place by turns: a gap, a newline, a gap, and so on, up to a token of
another kind, which may be the end, or to what is no token.

Neither goes by where the buffer ends.  Past its end a comment goes on up to the bound, and
everything else stops, in both of them.

* `Lexer.triviaEnd`: where the trivia end that a lexer has before it; a gap and a newline are
  trivia, and go no farther (`triviaEnd_skipGap`, `triviaEnd_advance`).
* `Lexer.exists_gives_newlines`: the newlines come to an end, and there the trivia do.
* `trivia_agree`: all of it.
-/

namespace SpanScript

open Alphabet Trivia

namespace Lexer

variable {l : Lexer} {b : UInt8}

/-! ## Where trivia end -/

/-- Where the trivia end; the flag says whether the lexer is inside a comment. -/
def triviaEnd (inComment : Bool) (l : Lexer) : Nat := l.index + span inComment l.left l.rest

theorem triviaEnd_of_left (c : Bool) (h : l.left = 0) : l.triviaEnd c = l.index := by
  rw [triviaEnd, h, span, Nat.add_zero]

/-- A blank or a separator is one of the trivia. -/
theorem triviaEnd_advance (hl : l.left ≠ 0) (hb : l.peek = some b)
    (h : (isBlank b || isSeparator b) = true) : l.advance.triviaEnd false = l.triviaEnd false := by
  obtain ⟨rest, left, index, loc⟩ := l
  obtain ⟨left, rfl⟩ := Nat.exists_eq_succ_of_ne_zero hl
  obtain ⟨rest, rfl⟩ := List.head?_eq_some_iff.mp hb
  show index + 1 + span false left rest = index + span false (left + 1) (b :: rest)
  rw [span, if_pos h]
  omega

/-- From its mark on a comment is one. -/
theorem triviaEnd_hash (h : l.peek = some hash) : l.triviaEnd true = l.triviaEnd false := by
  obtain ⟨rest, left, index, loc⟩ := l
  obtain ⟨rest, rfl⟩ := List.head?_eq_some_iff.mp h
  cases left with
  | zero => rfl
  | succ left => rfl

/-- A comment goes on up to a newline. -/
theorem triviaEnd_advance_comment (hl : l.left ≠ 0) (h : l.peek ≠ some Bytes.newline) :
    l.advance.triviaEnd true = l.triviaEnd true := by
  obtain ⟨rest, left, index, loc⟩ := l
  obtain ⟨left, rfl⟩ := Nat.exists_eq_succ_of_ne_zero hl
  cases rest with
  | nil =>
    have hrun : ∀ n, span true n [] = n := fun n => by cases n <;> rfl
    show index + 1 + span true left [] = index + span true (left + 1) []
    rw [hrun, hrun]
    omega
  | cons b rest =>
    have hb : (b != Bytes.newline) = true := bne_iff_ne.mpr fun hb => h (congrArg some hb)
    show index + 1 + span true left rest = index + span true (left + 1) (b :: rest)
    rw [span, hb]
    omega

/-- The newline behind a comment is one of the trivia too. -/
theorem triviaEnd_newline (h : l.peek = some Bytes.newline) :
    l.triviaEnd true = l.triviaEnd false := by
  obtain ⟨rest, left, index, loc⟩ := l
  obtain ⟨rest, rfl⟩ := List.head?_eq_some_iff.mp h
  cases left with
  | zero => rfl
  | succ left => rfl

/-- What is no blank, no separator and no comment is none of the trivia. -/
theorem triviaEnd_of_bare (hblank : l.peek.any isBlank = false) (hhash : l.peek ≠ some hash)
    (hseparator : l.peek.any isSeparator = false) : l.triviaEnd false = l.index := by
  obtain ⟨rest, left, index, loc⟩ := l
  cases left with
  | zero => rfl
  | succ left =>
    cases rest with
    | nil => rfl
    | cons b rest =>
      have h1 : isBlank b = false := hblank
      have h2 : isSeparator b = false := hseparator
      have h3 : ¬ (b == hash) = true := fun hb => hhash (congrArg some (eq_of_beq hb))
      rw [triviaEnd, span, h1, h2, if_neg h3]
      rfl

/-! ## Gaps -/

theorem advanceWithin_stops (p : Option UInt8 → Bool) : ∀ {n : Nat} {l : Lexer}, l.left ≤ n →
    (advanceWithin p n l).left = 0 ∨ p (advanceWithin p n l).peek = false := by
  intro n
  induction n with
  | zero => exact fun h => .inl (Nat.eq_zero_of_le_zero h)
  | succ n ih =>
    intro l h
    rw [advanceWithin]
    split
    · exact ih (Nat.sub_le_of_le_add h)
    · next hp => exact .inr (Bool.eq_false_iff.mpr hp)

/-- Going on comes to the bound, or to what ends it. -/
theorem advanceWhile_stops (p : Option UInt8 → Bool) (l : Lexer) :
    (l.advanceWhile p).left = 0 ∨ p (l.advanceWhile p).peek = false :=
  advanceWithin_stops p (Nat.le_refl _)

/-- To go on over trivia does not change where they end. -/
theorem triviaEnd_advanceWithin {c : Bool} {p : Option UInt8 → Bool}
    (h : ∀ l : Lexer, l.left ≠ 0 → p l.peek = true → l.advance.triviaEnd c = l.triviaEnd c) :
    ∀ {n : Nat} {l : Lexer}, n ≤ l.left → (advanceWithin p n l).triviaEnd c = l.triviaEnd c := by
  intro n
  induction n with
  | zero => exact fun _ => rfl
  | succ n ih =>
    intro l hn
    rw [advanceWithin]
    split
    · next hp => exact (ih (Nat.le_sub_one_of_lt hn)).trans (h l (Nat.ne_zero_of_lt hn) hp)
    · rfl

theorem triviaEnd_blanks (l : Lexer) :
    (l.advanceWhile (·.any isBlank)).triviaEnd false = l.triviaEnd false := by
  refine triviaEnd_advanceWithin (fun l hl hp => ?_) (Nat.le_refl _)
  obtain ⟨b, hb, h⟩ := (Option.any_eq_true _ _).mp hp
  exact triviaEnd_advance hl hb (by rw [h, Bool.true_or])

theorem triviaEnd_comment (l : Lexer) :
    (l.advanceWhile (· != some Bytes.newline)).triviaEnd false = l.triviaEnd true := by
  have hrun : (l.advanceWhile (· != some Bytes.newline)).triviaEnd true = l.triviaEnd true :=
    triviaEnd_advanceWithin (fun l hl hp => triviaEnd_advance_comment hl (bne_iff_ne.mp hp))
      (Nat.le_refl _)
  rcases advanceWhile_stops (· != some Bytes.newline) l with h | h
  · rw [← hrun, triviaEnd_of_left _ h, triviaEnd_of_left _ h]
  · rw [← hrun, triviaEnd_newline (bne_eq_false_iff_eq.mp h)]

/-- A gap is trivia. -/
theorem triviaEnd_skipGap (l : Lexer) : l.skipGap.triviaEnd false = l.triviaEnd false := by
  rw [skipGap, ← triviaEnd_blanks l]
  split
  · next h => rw [triviaEnd_comment, triviaEnd_hash h.2]
  · rfl

/-- Behind a gap there is no blank, and no comment begins. -/
theorem bare_skipGap (l : Lexer) :
    l.skipGap.left = 0 ∨ l.skipGap.peek.any isBlank = false ∧ l.skipGap.peek ≠ some hash := by
  rw [skipGap]
  split
  · rcases advanceWhile_stops (· != some Bytes.newline) (l.advanceWhile (·.any isBlank)) with h | h
    · exact .inl h
    · -- only a newline ends a comment
      rw [bne_eq_false_iff_eq.mp h]
      exact .inr ⟨rfl, by decide⟩
  · next hcomment =>
    rcases advanceWhile_stops (·.any isBlank) l with h | h
    · exact .inl h
    · by_cases hleft : (l.advanceWhile (·.any isBlank)).left = 0
      · exact .inl hleft
      · exact .inr ⟨h, fun hhash => hcomment ⟨hleft, hhash⟩⟩

/-! ## Newlines -/

/-- A separator is read as a newline. -/
theorem next_of_separator (hl : l.skipGap.left ≠ 0) (h : l.skipGap.peek.any isSeparator = true) :
    ∃ t, l.next = (.ok t, l.skipGap.advance) ∧ t.kind = .newline := by
  obtain ⟨b, hb, hs⟩ := (Option.any_eq_true _ _).mp h
  rw [next, scan, if_neg hl, hb]
  dsimp only
  rw [if_pos hs]
  exact ⟨_, rfl, rfl⟩

/-- **Newlines come to an end**, and behind them the next token begins where the trivia end. -/
theorem exists_gives_newlines (l : Lexer) : ∃ ν m, l.Gives ν m ∧ (∀ t ∈ ν, t.kind = .newline) ∧
    m.skipGap.index = l.triviaEnd false ∧ m.skipGap.triviaEnd false = m.skipGap.index ∧
    ∀ t l', m.next = (.ok t, l') → t.kind ≠ .newline := by
  induction hn : l.left using Nat.strong_induction_on generalizing l with
  | _ n ih =>
  by_cases hl : l.skipGap.left = 0
  · have hend := triviaEnd_of_left false hl
    refine ⟨[], l, .nil l, List.forall_mem_nil _, ?_, hend, ?_⟩
    · rw [← hend, triviaEnd_skipGap]
    · intro t l' h
      rw [next, scan, if_pos hl] at h
      cases h
      show TokenKind.eof ≠ TokenKind.newline
      decide
  by_cases hs : l.skipGap.peek.any isSeparator = true
  · obtain ⟨t, hnext, ht⟩ := next_of_separator hl hs
    have hlt : l.skipGap.advance.left < n := by
      have hbound := (leads_skipGap l).bound_eq
      have hindex := (leads_skipGap l).index_le
      have hleft : l.skipGap.advance.left = l.skipGap.left - 1 := rfl
      omega
    obtain ⟨b, hb, hsep⟩ := (Option.any_eq_true _ _).mp hs
    have hend := triviaEnd_advance hl hb (by rw [hsep, Bool.or_true])
    obtain ⟨ν, m, hm, hν, hstart, hrest⟩ := ih _ hlt _ rfl
    refine ⟨t :: ν, m, .cons hnext hm, List.forall_mem_cons.mpr ⟨ht, hν⟩, ?_, hrest⟩
    rw [hstart, hend, triviaEnd_skipGap]
  · obtain ⟨hblank, hhash⟩ := (bare_skipGap l).resolve_left hl
    have hend := triviaEnd_of_bare hblank hhash (Bool.eq_false_iff.mpr hs)
    refine ⟨[], l, .nil l, List.forall_mem_nil _, ?_, hend, fun t l' h ht => ?_⟩
    · rw [← hend, triviaEnd_skipGap]
    · exact hs ((scans_next l).newline t (congrArg Prod.fst h) ht)

end Lexer

/-- **Skipping trivia agrees with reading tokens.**

From any offset of any buffer, and up to any bound, newlines come, maybe none, and then another
token, which may be the end, or what is no token.  It begins where the trivia at that offset end,
and has the place that is counted up to there; so has what is said of it if it is no token, but
for an escape that stands for nothing, which comes later.

Where trivia end there are no more of them.  The end is not in front of the offset, and not behind
the bound if the offset is not. -/
theorem trivia_agree (text : Bytes) (index stop : Nat) (loc : Location) :
    let first := pastTrivia text index stop
    let place := loc.reached text index first
    (∃ ν l, (Lexer.ofText text index stop loc).Gives ν l ∧ (∀ t ∈ ν, t.kind = .newline) ∧
      l.skipGap.index = first ∧
      ((∃ t l', l.next = (.ok t, l') ∧ t.kind ≠ .newline ∧ t.start = first ∧ t.location = place) ∨
        ∃ f l', l.next = (.error f, l') ∧ first ≤ l'.index ∧
          (f.location = place ∨ ∃ b, f.problem = .unknownEscape b))) ∧
    pastTrivia text first stop = first ∧
    index ≤ first ∧
    (index ≤ stop → first ≤ stop) := by
  intro first place
  obtain ⟨ν, l, hl, hν, hstart, hend, hword⟩ :=
    (Lexer.ofText text index stop loc).exists_gives_newlines
  have hstart : l.skipGap.index = first := hstart
  have hleads : (Lexer.ofText text index stop loc).Leads l.skipGap :=
    hl.leads.trans (Lexer.leads_skipGap l)
  have hgap : l.skipGap = Lexer.ofText text first stop place := by
    rw [← Location.reached_self loc text index] at hleads
    have heq := hleads.eq_ofText (Nat.le_refl index)
    rwa [hstart] at heq
  have hscans := Lexer.scans_next l
  rw [hgap] at hscans hend
  refine ⟨⟨ν, l, hl, hν, hstart, ?_⟩, hend, Trivia.le_pastTrivia text index stop, fun hle => ?_⟩
  · obtain ⟨r, l', hn⟩ : ∃ r l', l.next = (r, l') := ⟨_, _, rfl⟩
    rw [hn] at hscans
    cases r with
    | ok t =>
      obtain ⟨h1, h2, -⟩ := hscans.token t rfl
      exact .inl ⟨t, l', hn, hword t l' hn, h1, h2⟩
    | error f =>
      have hforward := (Lexer.scans_scan l.skipGap).leads.index_le
      rw [hstart, show l.skipGap.scan = (.error f, l') from hn] at hforward
      exact .inr ⟨f, l', hn, hforward, hscans.fault f rfl⟩
  · have hbound := hleads.bound_eq
    have hindex : (Lexer.ofText text index stop loc).index = index := rfl
    have hleft : (Lexer.ofText text index stop loc).left = stop - index := rfl
    omega

/-- The trivia at the head are a blank, a semicolon, a comment, a newline, a blank and another
comment, which goes on past the end of the buffer.  Two newlines are read on the way to the
bound. -/
theorem trivia_agree_comment :
    let text : Bytes := [32, 59, 35, 99, 10, 32, 35]
    0 ≤ 9 ∧ pastTrivia text 0 9 = 9 ∧
    (∃ ν l, (Lexer.ofText text 0 9 ⟨1, 1⟩).Gives ν l ∧ (∀ t ∈ ν, t.kind = .newline) ∧
      l.skipGap.index = 9) ∧
    pastTrivia text 9 9 = 9 ∧ 9 ≤ 9 := by
  intro text
  have hbound : 0 ≤ 9 := by decide
  have hfirst : pastTrivia text 0 9 = 9 := by decide
  obtain ⟨⟨ν, l, hl, hν, hstart, -⟩, hagain, -, hle⟩ := trivia_agree text 0 9 ⟨1, 1⟩
  rw [hfirst] at hstart hagain hle
  exact ⟨hbound, hfirst, ⟨ν, l, hl, hν, hstart⟩, hagain, hle hbound⟩

end SpanScript
