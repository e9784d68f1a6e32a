import SpanScript.Proofs.Token.Walk

/-!
# Lexers that stay in the text

A bound inside the text is a bound that no lexer looks past: up to there it sees bytes, and
what lies behind makes no difference.  So it reads the tokens that a cursor reads, which
has nothing but the bytes up to the bound, and stands where the cursor stands behind each.

They part where no token can be read.  A cursor stays behind the last token; the lexer is
where the problem showed, and has counted its way there.

* `Cursor.lexer`: the lexer at a cursor, with any bytes behind the bound; one that begins
  in a text is of this kind (`exists_lexer_of_le`).
* `Cursor.Reports`: a lexer that comes to the same as a cursor.
* `Cursor.reports_next`, `Cursor.lexer_next_of_ok`, `Cursor.lexer_next_of_error`: for the next
  token it does.
-/

namespace SpanScript

open Alphabet

namespace Cursor

variable {c d start : Cursor} {tail rest : Bytes} {b : UInt8}

/-- The lexer at a cursor, with bytes behind its bound. -/
def lexer (c : Cursor) (tail : Bytes) : Lexer :=
  ⟨c.rest ++ tail, c.rest.length, c.offset, c.location⟩

/-- A lexer that begins in a text and whose bound is in it. -/
theorem exists_lexer_of_le {text : Bytes} {stop : Nat} (h : stop ≤ text.length) (start : Nat)
    (loc : Location) :
    ∃ tail, Lexer.ofText text start stop loc = (ofText text start stop loc).lexer tail := by
  rcases Nat.le_total start stop with hle | hle
  · refine ⟨text.drop stop, ?_⟩
    have hlength : (text.window start stop).length = stop - start := by
      rw [Bytes.length_window]
      omega
    rw [lexer, Lexer.ofText, Bytes.drop_eq_window_append text hle]
    show _ = Lexer.mk _ (text.window start stop).length _ _
    rw [hlength]
    rfl
  · refine ⟨text.drop start, ?_⟩
    rw [lexer, Lexer.ofText, ofText, Bytes.window_eq_nil _ hle, Nat.sub_eq_zero_of_le hle]
    rfl

/-! ## Moving on -/

theorem move_move (c : Cursor) (m n : Nat) : (c.move m).move n = c.move (m + n) := by
  rw [move, move, move, List.drop_drop, Nat.add_assoc, ← Location.after_append, ← List.take_add]

theorem lexer_advance (h : c.rest = b :: rest) (tail : Bytes) :
    (c.lexer tail).advance = (c.move 1).lexer tail := by
  obtain ⟨_, offset, location⟩ := c
  obtain rfl := h
  rfl

theorem lexer_peek (h : c.rest = b :: rest) (tail : Bytes) : (c.lexer tail).peek = some b := by
  rw [Lexer.peek, lexer, h]
  rfl

theorem lexer_left_ne (h : c.rest = b :: rest) (tail : Bytes) : (c.lexer tail).left ≠ 0 := by
  rw [lexer, h]
  exact Nat.succ_ne_zero _

theorem rest_move_one (h : c.rest = b :: rest) : (c.move 1).rest = rest := by
  rw [move, h]
  rfl

theorem lexer_upTo {n : Nat} (h : n ≤ c.rest.length) (tail : Bytes) :
    (c.lexer tail).upTo ((c.move n).lexer tail) = c.rest.take n := by
  show (c.rest ++ tail).take (c.offset + n - c.offset) = c.rest.take n
  rw [Nat.add_sub_cancel_left, List.take_append_of_le_length h]

/-- Going on over bytes with a property. -/
theorem lexer_advanceWhile {p : Option UInt8 → Bool} {q : UInt8 → Bool}
    (hp : ∀ b, p (some b) = q b) (c : Cursor) (tail : Bytes) :
    (c.lexer tail).advanceWhile p = (c.move (c.rest.takeWhile q).length).lexer tail := by
  show Lexer.advanceWithin p c.rest.length (c.lexer tail) = _
  induction hr : c.rest generalizing c with
  | nil => rfl
  | cons b rest ih =>
    rw [List.length_cons, Lexer.advanceWithin, lexer_peek hr, hp, List.takeWhile_cons]
    split
    · rw [lexer_advance hr, ih (c.move 1) (rest_move_one hr), move_move, List.length_cons,
        Nat.add_comm]
    · rfl

theorem lexer_upTo_takeWhile (q : UInt8 → Bool) (c : Cursor) (tail : Bytes) :
    (c.lexer tail).upTo ((c.move (c.rest.takeWhile q).length).lexer tail) = c.rest.takeWhile q := by
  rw [lexer_upTo (List.takeWhile_prefix q).length_le]
  exact (List.prefix_iff_eq_take.mp (List.takeWhile_prefix q)).symm

theorem rest_move_takeWhile (q : UInt8 → Bool) (c : Cursor) :
    (c.move (c.rest.takeWhile q).length).rest = c.rest.dropWhile q := (dropWhile_eq_drop q _).symm

theorem lexer_skipGap (c : Cursor) (tail : Bytes) :
    (c.lexer tail).skipGap = (c.move (gap c.rest)).lexer tail := by
  rw [Lexer.skipGap, lexer_advanceWhile (q := isBlank) (fun _ => rfl), gap]
  have hrest := rest_move_takeWhile isBlank c
  cases hr : c.rest.dropWhile isBlank with
  | nil =>
    rw [hr] at hrest
    exact if_neg fun h => h.1 (congrArg List.length hrest)
  | cons b rest =>
    rw [hr] at hrest
    rw [lexer_peek hrest]
    dsimp only
    by_cases hb : (b == hash) = true
    · obtain rfl := eq_of_beq hb
      have hq : ∀ a : UInt8, (some a != some Bytes.newline) = (a != Bytes.newline) := fun _ => rfl
      have htake : (hash :: rest).takeWhile (· != Bytes.newline)
          = hash :: rest.takeWhile (· != Bytes.newline) := List.takeWhile_cons_of_pos (by decide)
      rw [if_pos ⟨lexer_left_ne hrest tail, rfl⟩, if_pos hb, lexer_advanceWhile hq, move_move,
        hrest, htake, List.length_cons, Nat.add_assoc, Nat.add_comm 1]
    · rw [if_neg fun h => hb (beq_iff_eq.mpr (Option.some.inj h.2)), if_neg hb]

/-! ## Tokens -/

/-- A lexer that comes to the same as a cursor: to a token, and stands where the cursor
does, or to a fault, and has read as far. -/
inductive Reports (tail : Bytes) :
    Except LexFault (Token × Cursor) → Except LexFault Token × Lexer → Prop
  | token (t : Token) (d : Cursor) : Reports tail (.ok (t, d)) (.ok t, d.lexer tail)
  | fault {f : LexFault} {l : Lexer} : l.index = f.reached → Reports tail (.error f) (.error f, l)

/-- What a lexeme at the head comes to. -/
def placed (c : Cursor) : Except LexStop Lexeme → Except LexFault (Token × Cursor)
  | .ok l =>
    let after := c.move l.length
    .ok (⟨l.kind, l.text, c.location, c.offset, after.offset⟩, after)
  | .error e =>
    let reached := c.move e.length
    .error ⟨e.problem, if e.inside then reached.location else c.location, reached.offset⟩

theorem next_eq_placed (c : Cursor) :
    c.next = (c.move (gap c.rest)).placed (Lexeme.scan (c.move (gap c.rest)).rest) := by
  rw [next]
  dsimp only
  cases Lexeme.scan (c.move (gap c.rest)).rest <;> rfl

theorem reports_finish (kind : TokenKind) (text : String) (n : Nat) (c : Cursor) (tail : Bytes) :
    Reports tail (c.placed (.ok ⟨kind, text, n⟩))
      ((c.lexer tail).finish kind text ((c.move n).lexer tail)) := .token _ _

/-- A dot and a digit come next. -/
theorem lexer_fraction_iff (c : Cursor) (tail : Bytes) :
    ((c.lexer tail).left ≠ 0 ∧ (c.lexer tail).peek = some dot ∧ (c.lexer tail).advance.left ≠ 0 ∧
      (c.lexer tail).advance.peek.all isDigit = true) ↔
      (Lexeme.fractionOf c.rest).isEmpty = false := by
  cases hr : c.rest with
  | nil => exact iff_of_false (fun h => h.1 (congrArg List.length hr)) (by decide)
  | cons b rest =>
    rw [lexer_peek hr, lexer_advance hr]
    have hrest := rest_move_one hr
    by_cases hb : b = dot
    · obtain rfl := hb
      rw [Lexeme.fractionOf_dot]
      cases rest with
      | nil => exact iff_of_false (fun h => h.2.2.1 (congrArg List.length hrest)) (by decide)
      | cons a rest =>
        rw [lexer_peek hrest, List.takeWhile_cons]
        show _ ∧ _ ∧ _ ∧ isDigit a = true ↔ _
        cases isDigit a <;> simp [lexer_left_ne hr, lexer_left_ne hrest]
    · rw [Lexeme.fractionOf_nil_of_head (by simpa using hb)]
      exact iff_of_false (fun h => hb (Option.some.inj h.2.1)) (by decide)

/-- A fraction is the digits behind a dot. -/
theorem exists_of_fraction {bs : Bytes} (h : (Lexeme.fractionOf bs).isEmpty = false) :
    ∃ rest, bs = dot :: rest ∧ Lexeme.fractionOf bs = rest.takeWhile isDigit := by
  by_cases hdot : bs.head? = some dot
  · obtain ⟨rest, rfl⟩ := List.head?_eq_some_iff.mp hdot
    exact ⟨rest, rfl, Lexeme.fractionOf_dot rest⟩
  · rw [Lexeme.fractionOf_nil_of_head hdot] at h
    cases h

theorem reports_number (sign : Bytes) (c : Cursor) (tail : Bytes) :
    Reports tail (c.placed (.ok (Lexeme.number sign (c.move sign.length).rest)))
      ((c.lexer tail).number sign ((c.move sign.length).lexer tail)) := by
  generalize hd : c.move sign.length = d
  have hwhole : (d.lexer tail).skipDigits = (d.move (d.rest.takeWhile isDigit).length).lexer tail :=
    lexer_advanceWhile (fun _ => rfl) d tail
  have hpoint := rest_move_takeWhile isDigit d
  have hiff := lexer_fraction_iff (d.move (d.rest.takeWhile isDigit).length) tail
  rw [hpoint] at hiff
  rw [Lexer.number, Lexeme.number_eq, hwhole, lexer_upTo_takeWhile]
  dsimp only
  by_cases hf : (Lexeme.fractionOf (d.rest.dropWhile isDigit)).isEmpty = true
  · have hno := fun h => Bool.eq_false_iff.mp (hiff.mp h) hf
    rw [if_pos hf, if_pos hf, if_neg hno, List.append_nil, ← hd, move_move, ← List.length_append]
    exact reports_finish ..
  · have hfraction := Bool.eq_false_iff.mpr hf
    obtain ⟨rest, hrest, htext⟩ := exists_of_fraction hfraction
    rw [hrest] at hpoint
    have hone := rest_move_one hpoint
    have hskip : (((d.move (d.rest.takeWhile isDigit).length).move 1).lexer tail).skipDigits =
        (((d.move (d.rest.takeWhile isDigit).length).move 1).move
          (rest.takeWhile isDigit).length).lexer tail := by
      rw [← hone]
      exact lexer_advanceWhile (fun _ => rfl) _ tail
    have hupTo := lexer_upTo_takeWhile isDigit
      ((d.move (d.rest.takeWhile isDigit).length).move 1) tail
    rw [hone] at hupTo
    have hlength : (sign ++ d.rest.takeWhile isDigit ++ dot :: rest.takeWhile isDigit).length
        = sign.length + ((d.rest.takeWhile isDigit).length +
          (1 + (rest.takeWhile isDigit).length)) := by
      simp only [List.length_append, List.length_cons]
      omega
    rw [if_neg hf, if_neg hf, if_pos (hiff.mpr hfraction), htext, lexer_advance hpoint, hskip,
      hupTo, hlength, ← hd, move_move, move_move, move_move]
    exact reports_finish ..

/-- A minus is the sign of a number, or it is nothing. -/
theorem reports_minus (h : c.rest = b :: rest) (tail : Bytes) :
    Reports tail
      (c.placed (if (rest.takeWhile isDigit).isEmpty = true then
          .error { problem := .loneMinus, length := 0 }
        else .ok (Lexeme.number [minus] rest)))
      (if ((c.move 1).lexer tail).left ≠ 0 ∧ ((c.move 1).lexer tail).peek.all isDigit = true then
        (c.lexer tail).number [minus] ((c.move 1).lexer tail)
      else (.error ⟨.loneMinus, (c.lexer tail).location, (c.lexer tail).index⟩, c.lexer tail)) := by
  have hone := rest_move_one h
  have hiff : (((c.move 1).lexer tail).left ≠ 0 ∧
      ((c.move 1).lexer tail).peek.all isDigit = true) ↔ ¬ (rest.takeWhile isDigit).isEmpty := by
    cases rest with
    | nil => exact iff_of_false (fun h => h.1 (congrArg List.length hone)) (by simp)
    | cons a rest =>
      rw [lexer_peek hone, List.takeWhile_cons]
      show _ ∧ isDigit a = true ↔ _
      cases isDigit a <;> simp [lexer_left_ne hone]
  by_cases hdigits : (rest.takeWhile isDigit).isEmpty = true
  · rw [if_pos hdigits, if_neg fun h => hiff.mp h hdigits]
    exact .fault rfl
  · have hnumber := reports_number [minus] c tail
    rw [List.length_singleton, hone] at hnumber
    rw [if_neg hdigits, if_pos (hiff.mpr hdigits)]
    exact hnumber

theorem reports_word (c : Cursor) (tail : Bytes) :
    Reports tail (c.placed (.ok (Lexeme.word c.rest))) (c.lexer tail).word := by
  rw [Lexer.word, lexer_advanceWhile (q := isNamePart) (fun _ => rfl), lexer_upTo_takeWhile]
  exact reports_finish _ _ _ _ _

/-! ## String literals -/

/-- How a string literal comes out that begins at `start`, when `raw` has been read of what
stands between its quotes. -/
def ending (start : Cursor) (raw : Bytes) (c : Cursor) :
    Quoted → Except LexFault (Token × Cursor)
  | .closed content n =>
    match Utf8.decode? (raw ++ content) with
    | some text => .ok (⟨.string, text, start.location, start.offset, (c.move n).offset⟩, c.move n)
    | none => .error ⟨.invalidUtf8, start.location, (c.move n).offset⟩
  | .cut n => .error ⟨.unterminated, start.location, (c.move n).offset⟩
  | .badEscape b n => .error ⟨.unknownEscape b, (c.move n).location, (c.move n).offset⟩

theorem ending_before (start : Cursor) (raw : Bytes) (c : Cursor) (n : Nat) (bs : Bytes)
    (q : Quoted) : start.ending raw c (q.before n bs) = start.ending (raw ++ bs) (c.move n) q := by
  cases q <;> simp only [Quoted.before, ending, List.append_assoc, move_move]

/-- A literal that has its opening quote. -/
theorem placed_quoted (c : Cursor) (quote : UInt8) (bs : Bytes) :
    c.placed (Lexeme.quoted quote bs) = c.ending [] (c.move 1) (Quoted.read quote bs) := by
  unfold Lexeme.quoted
  cases Quoted.read quote bs with
  | closed content n =>
    rw [ending, List.nil_append, move_move, Nat.add_comm 1]
    dsimp only
    cases Utf8.decode? content <;> rfl
  | cut n =>
    rw [ending, move_move, Nat.add_comm 1]
    rfl
  | badEscape b n =>
    rw [ending, move_move, Nat.add_comm 1]
    rfl

theorem reports_quoted (start : Cursor) (quote : UInt8) (tail raw : Bytes) (c : Cursor) :
    Reports tail (start.ending raw c (Quoted.read quote c.rest))
      ((start.lexer tail).quoted quote c.rest.length raw (c.lexer tail)) := by
  generalize hr : c.rest = bs
  fun_induction Quoted.read quote bs generalizing raw c with
  | case1 => exact .fault rfl
  | case2 b rest hq =>
    rw [List.length_cons, Lexer.quoted, lexer_peek hr, if_pos (congrArg some (eq_of_beq hq)),
      lexer_advance hr, ending, List.append_nil]
    cases Utf8.decode? raw with
    | some text => exact .token _ _
    | none => exact .fault rfl
  | case3 b rest hq hn =>
    rw [List.length_cons, Lexer.quoted, lexer_peek hr, if_neg (by simpa using hq),
      if_pos (congrArg some (eq_of_beq hn))]
    exact .fault rfl
  | case4 b hq hn hb =>
    rw [List.length_cons, Lexer.quoted, lexer_peek hr, if_neg (by simpa using hq),
      if_neg (by simpa using hn), if_pos (congrArg some (eq_of_beq hb)), lexer_advance hr]
    exact .fault rfl
  | case5 b hq hn hb e rest v he ih =>
    have hone := rest_move_one hr
    rw [ending_before, List.length_cons, List.length_cons, Lexer.quoted, lexer_peek hr,
      if_neg (by simpa using hq), if_neg (by simpa using hn),
      if_pos (congrArg some (eq_of_beq hb)), lexer_advance hr]
    dsimp only
    rw [lexer_peek hone, Option.bind_some, he, lexer_advance hone, move_move]
    have htwo := rest_move_one hone
    rw [move_move] at htwo
    exact ih _ _ htwo
  | case6 b hq hn hb e rest he =>
    have hone := rest_move_one hr
    rw [List.length_cons, List.length_cons, Lexer.quoted, lexer_peek hr,
      if_neg (by simpa using hq), if_neg (by simpa using hn),
      if_pos (congrArg some (eq_of_beq hb)), lexer_advance hr]
    dsimp only
    rw [lexer_peek hone, Option.bind_some, he]
    exact .fault rfl
  | case7 b rest hq hn hb ih =>
    rw [ending_before, List.length_cons, Lexer.quoted, lexer_peek hr, if_neg (by simpa using hq),
      if_neg (by simpa using hn), if_neg (by simpa using hb), lexer_advance hr]
    exact ih _ _ (rest_move_one hr)

/-! ## The next token -/

theorem reports_scan (c : Cursor) (tail : Bytes) :
    Reports tail (c.placed (Lexeme.scan c.rest)) (c.lexer tail).scan := by
  cases hr : c.rest with
  | nil =>
    have hleft : (c.lexer tail).left = 0 := congrArg List.length hr
    rw [Lexer.scan, if_pos hleft]
    exact reports_finish _ _ 0 c tail
  | cons b rest =>
    have hone := rest_move_one hr
    rw [Lexer.scan, if_neg (lexer_left_ne hr tail), lexer_peek hr, lexer_advance hr, Lexeme.scan]
    dsimp only
    split
    · exact reports_finish ..
    cases symbol? b with
    | some kind => exact reports_finish ..
    | none =>
      dsimp only
      split
      · have hquoted := reports_quoted c b tail [] (c.move 1)
        have hlength : ((c.move 1).lexer tail).left = rest.length := congrArg List.length hone
        rw [hone] at hquoted
        rw [placed_quoted, hlength]
        exact hquoted
      split
      · exact reports_minus hr tail
      split
      · have hnumber : Reports tail (c.placed (.ok (Lexeme.number [] c.rest)))
            ((c.lexer tail).number [] (c.lexer tail)) := reports_number [] c tail
        rw [hr] at hnumber
        exact hnumber
      split
      · have hword := reports_word c tail
        rw [hr] at hword
        exact hword
      · exact .fault rfl

/-- **The next token is the same**, and so is the fault if there is none. -/
theorem reports_next (c : Cursor) (tail : Bytes) : Reports tail c.next (c.lexer tail).next := by
  rw [next_eq_placed, Lexer.next, lexer_skipGap]
  exact reports_scan _ tail

theorem lexer_next_of_ok {t : Token} (h : c.next = .ok (t, d)) (tail : Bytes) :
    (c.lexer tail).next = (.ok t, d.lexer tail) := by
  have hreports := reports_next c tail
  rw [h] at hreports
  generalize (c.lexer tail).next = r at hreports ⊢
  cases hreports
  rfl

/-- Where no token can be read the lexer has gone as far as the fault says. -/
theorem lexer_next_of_error {f : LexFault} (h : c.next = .error f) (tail : Bytes) :
    ∃ l, (c.lexer tail).next = (.error f, l) ∧ l.index = f.reached := by
  have hreports := reports_next c tail
  rw [h] at hreports
  generalize (c.lexer tail).next = r at hreports ⊢
  cases hreports with
  | fault hindex => exact ⟨_, rfl, hindex⟩

end Cursor

end SpanScript
