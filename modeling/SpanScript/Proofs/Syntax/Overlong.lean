import SpanScript.Session
import SpanScript.Proofs.Syntax.Next

/-!
# Literals with too many digits

A statement that begins with an integer literal of more digits than may be read is no
problem at a place: parsing it stops with the number of the digits.

* `Reader.next_overlong`: such a literal is the first token.
* `Session.parse_digits`: a text begins with that many digits.
-/

namespace SpanScript

open Alphabet Grammar

/-! ## A number is the first token -/

theorem beq_of_isDigit {b c : UInt8} (h : isDigit b = true) (hc : isDigit c = false) :
    (b == c) = false := by
  rw [beq_eq_false_iff_ne]
  rintro rfl
  rw [h] at hc
  cases hc

/-- Behind a sign a number is all the digits, if neither a digit nor a dot comes behind them. -/
theorem Lexeme.number_digits (sign : Bytes) {ds r : Bytes} (hd : ∀ d ∈ ds, isDigit d = true)
    (hr : ∀ d ∈ r.head?, isDigit d = false ∧ d ≠ dot) :
    Lexeme.number sign (ds ++ r) = ⟨.number, ascii (sign ++ ds), (sign ++ ds).length⟩ := by
  have hall : ds.takeWhile isDigit = ds := List.takeWhile_eq_self_iff.mpr hd
  have hnot : r.takeWhile isDigit = [] := by
    cases r with
    | nil => rfl
    | cons c r => exact List.takeWhile_cons_of_neg (by simp [(hr c rfl).1])
  have hwhole : (ds ++ r).takeWhile isDigit = ds := by
    rw [List.takeWhile_append, hall, if_pos rfl, hnot, List.append_nil]
  have hrest : (ds ++ r).dropWhile isDigit = r := by
    rw [dropWhile_eq_drop, hwhole, List.drop_left]
  have hfraction : fractionOf r = [] :=
    fractionOf_nil_of_head fun h => (hr dot h).2 rfl
  rw [number_eq, hwhole, hrest, hfraction]
  simp only [List.isEmpty_nil, if_true, List.append_nil]

/-- Digits are read as one number, if neither a digit nor a dot comes behind them. -/
theorem Lexeme.scan_digits {b : UInt8} {q r : Bytes} (hd : ∀ d ∈ b :: q, isDigit d = true)
    (hr : ∀ d ∈ r.head?, isDigit d = false ∧ d ≠ dot) :
    Lexeme.scan (b :: (q ++ r)) = .ok ⟨.number, ascii (b :: q), (b :: q).length⟩ := by
  have hb : isDigit b = true := hd b (List.mem_cons_self ..)
  have hne (c : UInt8) (hc : isDigit c = false) : (b == c) = false := beq_of_isDigit hb hc
  have hsymbol : symbol? b = none := by
    simp only [symbol?, hne 40 rfl, hne 41 rfl, hne 123 rfl, hne 125 rfl, hne 91 rfl, hne 93 rfl,
      hne 44 rfl, hne 61 rfl, hne 58 rfl, Bool.false_eq_true, if_false]
  rw [scan, if_neg (by simp [isSeparator, hne Bytes.newline rfl, hne 59 rfl]), hsymbol]
  simp only [isQuote, hne 34 rfl, hne 39 rfl, hne minus rfl, hb, Bool.or_self, Bool.false_eq_true,
    if_false, if_true]
  rw [← List.cons_append, number_digits [] hd hr, List.nil_append]

theorem Cursor.next_digits {c : Cursor} {b : UInt8} {q r : Bytes} (h : c.rest = b :: q ++ r)
    (hd : ∀ d ∈ b :: q, isDigit d = true) (hr : ∀ d ∈ r.head?, isDigit d = false ∧ d ≠ dot) :
    ∃ t d, c.next = .ok (t, d) ∧ t.kind = .number ∧ t.text = ascii (b :: q) := by
  have hb : isDigit b = true := hd b (List.mem_cons_self ..)
  have hgap : gap c.rest = 0 := by
    rw [h, List.cons_append]
    refine gap_of_not_begins ?_ (beq_of_isDigit hb rfl) _
    simp [isBlank, beq_of_isDigit hb (c := 32) rfl, beq_of_isDigit hb (c := 9) rfl,
      beq_of_isDigit hb (c := 13) rfl]
  have hscan : Lexeme.scan (c.rest.drop (gap c.rest))
      = .ok ⟨.number, ascii (b :: q), (b :: q).length⟩ := by
    rw [hgap, List.drop_zero, h, List.cons_append]
    exact Lexeme.scan_digits hd hr
  unfold Cursor.next
  simp only [move, hscan]
  exact ⟨_, _, rfl, rfl, rfl⟩

/-- A number without sign has as many digits as characters. -/
theorem digitCount_ascii {b : UInt8} {q : Bytes} (hb : isDigit b = true) :
    digitCount (ascii (b :: q)) = (b :: q).length := by
  have hsign : (Char.ofNat b.toNat == '-') = false ∧ (Char.ofNat b.toNat == '+') = false := by
    obtain ⟨h1, h2⟩ : 48 ≤ b.toNat ∧ b.toNat ≤ 57 := by
      simpa [isDigit, UInt8.le_iff_toNat_le] using hb
    generalize b.toNat = n at h1 h2
    obtain ⟨k, hk, rfl⟩ : ∃ k < 10, n = 48 + k := ⟨n - 48, by omega, by omega⟩
    revert k
    decide
  unfold digitCount ascii Numeral.sign
  rw [String.toList_ofList, List.map_cons]
  simp only [hsign.1, hsign.2, Bool.false_eq_true, if_false, List.length_cons, List.length_map]

namespace Reader

variable {types : List TypeName} {s : ReadState} {t : Token} {c d : Cursor}

theorem primary_overlong (expr : Nat → Reader Expr) (h : s.cursor.Reads [t] d)
    (hk : t.kind = .number) (hf : ¬ FitsDigits t.text) :
    ∃ s', Fails (primary expr) s (.literalTooLong (digitCount t.text)) s' := by
  obtain ⟨s₁, h1, c₁⟩ := peek_gives h.faces
  obtain ⟨s₂, h2, -⟩ := take_gives (c₁.cursor_eq ▸ h : s₁.cursor.Reads [t] d)
  refine ⟨s₂, h1.bind_fails ?_⟩
  simp only [hk]
  refine h2.bind_fails (Fails.bind ?_ _)
  rw [integerLiteral_of_not_fits hf]
  exact fails_throw _ _

theorem statement_overlong (types : List TypeName) (nesting : Nat) (h : s.cursor.Reads [t] d)
    (hk : t.kind = .number) (hf : ¬ FitsDigits t.text) :
    ∃ s', Fails (statement types (nesting + 2) 0) s (.literalTooLong (digitCount t.text)) s' := by
  obtain ⟨s₁, h1, c₁⟩ := peek_gives h.faces
  obtain ⟨s₂, h2⟩ := primary_overlong (expression nesting)
    (c₁.cursor_eq ▸ h : s₁.cursor.Reads [t] d) hk hf
  refine ⟨s₂, h1.bind_fails ?_⟩
  simp only [hk]
  exact Fails.bind (Fails.bind h2 _) _

/-- **A literal with too many digits cannot be parsed** at the beginning of a statement. -/
theorem next_overlong (types : List TypeName) (nesting : Nat) (h : c.Reads [t] d)
    (hk : t.kind = .number) (hf : ¬ FitsDigits t.text) :
    ∃ s, next types (nesting + 2) (.start c)
      = (.error (.literalTooLong (digitCount t.text)), s) := by
  have hdrop : Arrives (fun _ _ => False) dropNewlines (.start c) [] () :=
    dropNewlines_parses.complete (c := c) ⟨ready_start c, .nil⟩ nofun
      ⟨t, h.faces, by simp [hk]⟩
  obtain ⟨s₁, h1, c₁⟩ := hdrop.resolve_right fun ⟨_, _, _, _, ht, _⟩ => nomatch ht
  obtain ⟨s₂, h2, c₂⟩ := peek_gives (c₁.faces h.faces)
  obtain ⟨s₃, h3⟩ := statement_overlong types nesting
    ((c₁.trans c₂).cursor_eq ▸ h : s₂.cursor.Reads [t] d) hk hf
  refine ⟨s₃, h1.bind_fails (h2.bind_fails ?_)⟩
  rw [if_neg (by simp [hk])]
  exact h3

end Reader

/-- **A statement that begins with more digits than may be read** is not parsed. -/
theorem Session.parse_digits {limits : Limits} {nesting : Nat} (hn : limits.nesting = nesting + 2)
    {text : PlacedText} {offset : Nat} {b : UInt8} {q r : Bytes}
    (h : text.text.drop offset = b :: q ++ r) (hd : ∀ d ∈ b :: q, isDigit d = true)
    (hr : ∀ d ∈ r.head?, isDigit d = false ∧ d ≠ dot)
    (hlong : Numeral.digitLimit < (b :: q).length) :
    parse limits text offset = .error (.literalTooLong (b :: q).length) := by
  have hcount := digitCount_ascii (q := q) (hd b (List.mem_cons_self ..))
  have hrest : (Cursor.ofText text.text offset text.text.length (text.locate offset)).rest
      = b :: q ++ r := (Bytes.window_length text.text offset).trans h
  obtain ⟨t, d, hnext, hk, ht⟩ := Cursor.next_digits hrest hd hr
  have hfits : ¬ FitsDigits t.text := by
    rw [FitsDigits, ht, hcount]
    exact Nat.not_le.mpr hlong
  obtain ⟨s, hs⟩ := Reader.next_overlong Kind.names nesting
    (.single hnext (by simp [hk])) hk hfits
  rw [parse, hn]
  simp only [hs, ht, hcount]

end SpanScript
