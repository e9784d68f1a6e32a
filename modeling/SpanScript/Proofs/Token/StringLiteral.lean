import SpanScript.Proofs.Bytes.Utf8
import SpanScript.Proofs.Token.Reading

/-!
# String literals

What stands between the quotes of a string literal is a sequence of items, and
the literal stands for the text that the bytes of the items encode.  Whatever
text there is, it can be written between quotes.

* `Items`: the sequences of items, and the bytes they stand for.
* `isQuoted_iff`: a literal behind its opening quote is items and a quote.
* `written`, `items_escaped`: how a text is written as a literal.
* `literals_exact`: where there is a string literal, and that it is read back as
  it was written.
-/

namespace SpanScript

open Alphabet

/-! ## Items -/

/-- The bytes that may follow a backslash, each with the byte that is meant:
newline, tabulator, backslash and the two quotes. -/
def escapes : List (UInt8 × UInt8) := [(110, 10), (116, 9), (92, 92), (34, 34), (39, 39)]

theorem mem_escapes_iff {e v : UInt8} : (e, v) ∈ escapes ↔ unescape? e = some v := by
  have hcases : (e, v) ∈ escapes ↔ (e = 110 ∧ v = 10) ∨ (e = 116 ∧ v = 9) ∨ (e = 92 ∧ v = 92) ∨
      (e = 34 ∧ v = 34) ∨ (e = 39 ∧ v = 39) := by simp [escapes]
  rw [hcases]
  constructor
  · rintro (⟨rfl, rfl⟩ | ⟨rfl, rfl⟩ | ⟨rfl, rfl⟩ | ⟨rfl, rfl⟩ | ⟨rfl, rfl⟩) <;> rfl
  · intro h
    unfold unescape? at h
    split at h
    · next he => exact .inl ⟨eq_of_beq he, (Option.some.inj h).symm⟩
    split at h
    · next he => exact .inr (.inl ⟨eq_of_beq he, (Option.some.inj h).symm⟩)
    split at h
    · next he => exact .inr (.inr (.inl ⟨eq_of_beq he, (Option.some.inj h).symm⟩))
    split at h
    · next he =>
      obtain rfl := Option.some.inj h
      have hquote : e = 34 ∨ e = 39 := by simpa [isQuote] using he
      rcases hquote with rfl | rfl
      · exact .inr (.inr (.inr (.inl ⟨rfl, rfl⟩)))
      · exact .inr (.inr (.inr (.inr ⟨rfl, rfl⟩)))
    · cases h

/-- A sequence of items between quotes, and the bytes it stands for.  An item is a byte
other than the quote, a backslash and a newline, or it is a backslash and a byte that may
follow it. -/
inductive Items (quote : UInt8) : Bytes → Bytes → Prop
  | nil : Items quote [] []
  | byte {b : UInt8} {p content : Bytes} : b ≠ quote → b ≠ backslash → b ≠ Bytes.newline →
      Items quote p content → Items quote (b :: p) (b :: content)
  | escape {e v : UInt8} {p content : Bytes} : (e, v) ∈ escapes → Items quote p content →
      Items quote (backslash :: e :: p) (v :: content)

namespace Items

variable {quote : UInt8} {p p' content content' : Bytes}

theorem append (h : Items quote p content) (h' : Items quote p' content') :
    Items quote (p ++ p') (content ++ content') := by
  induction h with
  | nil => exact h'
  | byte h1 h2 h3 _ ih => exact .byte h1 h2 h3 ih
  | escape he _ ih => exact .escape he ih

/-- Bytes that stand for themselves. -/
theorem plain (h : ∀ b ∈ p, b ≠ quote ∧ b ≠ backslash ∧ b ≠ Bytes.newline) :
    Items quote p p := by
  induction p with
  | nil => exact .nil
  | cons b p ih =>
    obtain ⟨⟨h1, h2, h3⟩, hp⟩ := List.forall_mem_cons.mp h
    exact .byte h1 h2 h3 (ih hp)

end Items

theorem quote_ne_backslash {quote : UInt8} (hq : isQuote quote = true) : backslash ≠ quote := by
  rintro rfl
  cases hq

/-- A literal behind its opening quote is items, and then the quote that closes it. -/
theorem isQuoted_iff {quote : UInt8} (hq : isQuote quote = true) {p content : Bytes} :
    IsQuoted quote p content ↔ ∃ items, p = items ++ [quote] ∧ Items quote items content := by
  constructor
  · intro h
    induction h with
    | close => exact ⟨[], rfl, .nil⟩
    | @byte b _ _ h1 h2 h3 _ ih =>
      obtain ⟨items, rfl, hi⟩ := ih
      exact ⟨b :: items, rfl, .byte h1 h3 h2 hi⟩
    | @escape e _ _ _ h1 he _ ih =>
      obtain ⟨items, rfl, hi⟩ := ih
      exact ⟨backslash :: e :: items, rfl, .escape (mem_escapes_iff.mpr he) hi⟩
  · rintro ⟨items, rfl, hi⟩
    induction hi with
    | nil => exact .close
    | byte h1 h2 h3 _ ih => exact .byte h1 h3 h2 ih
    | escape he _ ih => exact .escape (quote_ne_backslash hq) (mem_escapes_iff.mp he) ih

/-! ## Literals -/

theorem Lexeme.scan_quote {quote : UInt8} (hq : isQuote quote = true) (bs : Bytes) :
    scan (quote :: bs) = quoted quote bs := by
  have hquote : quote = 34 ∨ quote = 39 := by simpa [isQuote] using hq
  rcases hquote with rfl | rfl <;> rfl

theorem gap_quote {quote : UInt8} (hq : isQuote quote = true) (bs : Bytes) :
    gap (quote :: bs) = 0 := by
  have hquote : quote = 34 ∨ quote = 39 := by simpa [isQuote] using hq
  rcases hquote with rfl | rfl <;> exact gap_of_not_begins (by decide) (by decide) bs

namespace Cursor

variable {c d : Cursor} {quote : UInt8}

/-- A literal that lies at a cursor is read. -/
theorem lies_literal (hq : isQuote quote = true) {p r : Bytes} {v : String}
    (hp : IsQuoted quote p (Bytes.ofString v)) (hc : c.rest = quote :: (p ++ r)) :
    c.Lies [] quote p ⟨.string, v, c.location, c.offset, c.offset + (p.length + 1)⟩
      ⟨r, c.offset + (p.length + 1), c.location.after (quote :: p)⟩ where
  rest := hc
  gap := by rw [hc, gap_quote hq, List.length_nil]
  scan := by
    rw [Lexeme.scan_quote hq, Lexeme.quoted, hp.read_append r]
    simp only [Utf8.decode?_eq_some_iff.mpr rfl]
  place := rfl
  start := rfl
  stop := rfl
  offset := rfl
  location := rfl

/-- A token that begins at a quote is a literal. -/
theorem exists_literal (hq : isQuote quote = true) {bs : Bytes} {t : Token}
    (hc : c.rest = quote :: bs) (h : c.next = .ok (t, d)) (ht : t.kind ≠ .eof) :
    ∃ p, bs = p ++ d.rest ∧ IsQuoted quote p (Bytes.ofString t.text) ∧ t.kind = .string ∧
      t.start = c.offset ∧ t.stop = c.offset + (p.length + 1) := by
  obtain ⟨g, b, p, hl⟩ := exists_lies_of_next h ht
  have hgap : g = [] := by
    have := hl.gap
    rw [hc, gap_quote hq] at this
    exact List.length_eq_zero_iff.mp this.symm
  subst hgap
  have hrest := hl.rest
  rw [hc, List.nil_append] at hrest
  obtain ⟨rfl, rfl⟩ := List.cons.inj hrest
  have hscan := hl.scan
  rw [Lexeme.scan_quote hq] at hscan
  obtain ⟨content, n, text, hread, htext, hlexeme⟩ := Lexeme.quoted_eq_ok hscan
  injection hlexeme with hkind htext' hlength
  obtain rfl : p.length = n := Nat.succ.inj hlength
  obtain ⟨p', r, hsplit, hlen, hp⟩ := Quoted.exists_isQuoted_of_read hread
  obtain ⟨rfl, -⟩ := List.append_inj hsplit hlen
  rw [Utf8.decode?_eq_some_iff.mp htext, ← htext'] at hp
  have hstart := hl.start
  have hstop := hl.stop
  rw [hl.offset] at hstop
  exact ⟨p, rfl, hp, hkind, hstart, hstop⟩

/-! ### Literals in a text -/

variable {text : Bytes} {start stop e : Nat} {loc : Location} {v : String}

/-- A literal that is read is items between two quotes. -/
theorem items_of_next {t : Token} (hq : isQuote quote = true)
    (hstart : text[start]? = some quote)
    (hn : (Cursor.ofText text start stop loc).next = .ok (t, d)) (hk : t.kind = .string) :
    start + 2 ≤ t.stop ∧ t.stop ≤ stop ∧ text[t.stop - 1]? = some quote ∧
      Items quote (text.window (start + 1) (t.stop - 1)) (Bytes.ofString t.text) := by
  have hne : t.kind ≠ .eof := by rw [hk]; exact TokenKind.noConfusion
  have hopen : text.window start stop = quote :: text.window (start + 1) stop := by
    obtain ⟨g, b, q, hl⟩ := Cursor.exists_lies_of_next hn hne
    have hrest : text.window start stop ≠ [] := fun hnil => by
      have hsplit := hl.rest
      rw [ofText, hnil] at hsplit
      exact List.append_ne_nil_of_right_ne_nil g (List.cons_ne_nil _ _) hsplit.symm
    obtain ⟨x, r, hx⟩ := List.exists_cons_of_ne_nil hrest
    exact Bytes.window_eq_cons_iff.mpr ⟨(Bytes.window_eq_cons_iff.mp hx).1, hstart, rfl⟩
  obtain ⟨p, hp, hquoted, -, -, hend⟩ := Cursor.exists_literal hq hopen hn hne
  obtain ⟨items, rfl, hitems⟩ := (isQuoted_iff hq).mp hquoted
  rw [List.append_assoc, List.singleton_append] at hp
  obtain ⟨hlt, hlast, -⟩ := Bytes.window_eq_cons_iff.mp (Bytes.window_past hp)
  have he : t.stop - 1 = start + 1 + items.length := by
    rw [hend, List.length_append, List.length_singleton]
    show start + (items.length + 1 + 1) - 1 = _
    omega
  refine ⟨by omega, by omega, by rw [he]; exact hlast, ?_⟩
  rw [he, Bytes.window_of_append hp]
  exact hitems

/-- Items between two quotes are read as a literal. -/
theorem next_of_items (hq : isQuote quote = true) (hstart : text[start]? = some quote)
    (he : start + 2 ≤ e) (hstop : e ≤ stop) (hlast : text[e - 1]? = some quote)
    (hitems : Items quote (text.window (start + 1) (e - 1)) (Bytes.ofString v)) :
    ∃ t d, (Cursor.ofText text start stop loc).next = .ok (t, d) ∧ t.kind = .string ∧
      t.start = start ∧ t.stop = e ∧ t.text = v := by
  obtain ⟨hlt, -⟩ := List.getElem?_eq_some_iff.mp hlast
  have hclose : text.window (e - 1) stop = quote :: text.window e stop :=
    Bytes.window_eq_cons_iff.mpr ⟨by omega, hlast, by rw [Nat.sub_add_cancel (by omega)]⟩
  have hopen : text.window start stop =
      quote :: (text.window (start + 1) (e - 1) ++ [quote] ++ text.window e stop) := by
    refine Bytes.window_eq_cons_iff.mpr ⟨by omega, hstart, ?_⟩
    rw [List.append_assoc, List.singleton_append, ← hclose]
    exact (Bytes.window_append text (by omega) (by omega)).symm
  have hquoted := (isQuoted_iff hq).mpr ⟨_, rfl, hitems⟩
  have hlength : (text.window (start + 1) (e - 1) ++ [quote]).length + 1 = e - start := by
    rw [List.length_append, Bytes.length_window, List.length_singleton]
    omega
  refine ⟨_, _, (lies_literal hq hquoted hopen).next, rfl, rfl, ?_, rfl⟩
  show start + (_ + 1) = e
  omega

/-- Where there is a string literal in a text, and what it stands for. -/
theorem next_literal_iff (hq : isQuote quote = true) (hstart : text[start]? = some quote) :
    (∃ t d, (Cursor.ofText text start stop loc).next = .ok (t, d) ∧ t.kind = .string ∧
        t.start = start ∧ t.stop = e ∧ t.text = v) ↔
      start + 2 ≤ e ∧ e ≤ stop ∧ text[e - 1]? = some quote ∧
        Items quote (text.window (start + 1) (e - 1)) (Bytes.ofString v) := by
  constructor
  · rintro ⟨t, d, hn, hk, -, rfl, rfl⟩
    exact items_of_next hq hstart hn hk
  · rintro ⟨he, hstop, hlast, hitems⟩
    exact next_of_items hq hstart he hstop hlast hitems

end Cursor

/-! ## Writing literals -/

/-- A character as it is written between quotes: with a backslash before it if it is a
backslash or the quote, and a newline as an escape sequence. -/
def escaped (quote : UInt8) (c : Char) : Bytes :=
  if c = '\\' ∨ c = Char.ofNat quote.toNat then backslash :: String.utf8EncodeChar c
  else if c = '\n' then [backslash, 110]
  else String.utf8EncodeChar c

/-- A text as it is written as a string literal. -/
def written (quote : UInt8) (v : String) : Bytes :=
  quote :: (v.toList.flatMap (escaped quote) ++ [quote])

/-- A character as it is written stands for its encoding. -/
theorem items_escaped {quote : UInt8} (hq : isQuote quote = true) (c : Char) :
    Items quote (escaped quote c) (String.utf8EncodeChar c) := by
  have hquote : quote = 34 ∨ quote = 39 := by simpa [isQuote] using hq
  unfold escaped
  split
  · next hc =>
    rcases hc with rfl | rfl
    · exact .escape (by decide) .nil
    · rcases hquote with rfl | rfl <;> exact .escape (by decide) .nil
  next hc =>
  rw [not_or] at hc
  split
  · next hn =>
    subst hn
    exact .escape (by decide) .nil
  · next hn =>
    refine .plain fun b hb => ?_
    have hchar (hlt : b.toNat < 0x80) : c = Char.ofNat b.toNat := by
      rw [← Utf8.toNat_eq_of_mem_encode hb hlt, Char.ofNat_toNat]
    refine ⟨?_, ?_, ?_⟩
    · rintro rfl
      refine hc.2 (hchar ?_)
      rcases hquote with rfl | rfl <;> decide
    · rintro rfl
      exact hc.1 (hchar (by decide))
    · rintro rfl
      exact hn (hchar (by decide))

theorem items_written {quote : UInt8} (hq : isQuote quote = true) (cs : List Char) :
    Items quote (cs.flatMap (escaped quote)) (cs.flatMap String.utf8EncodeChar) := by
  induction cs with
  | nil => exact .nil
  | cons c cs ih =>
    rw [List.flatMap_cons, List.flatMap_cons]
    exact (items_escaped hq c).append ih

/-- **String literals are read exactly.**  At a quote in a text the next token is a string
literal that ends at `e`, within the bound, and stands for `v`, if and only if another such
quote is right before `e` and the bytes between the two are items, standing for the
encoding of `v`.  So every text can be written: as it is written it is read, wherever the
literal stands. -/
theorem literals_exact {quote : UInt8} (hq : isQuote quote = true) :
    (∀ (text : Bytes) (start stop e : Nat) (loc : Location) (v : String),
      text[start]? = some quote →
      ((∃ t d, (Cursor.ofText text start stop loc).next = .ok (t, d) ∧ t.kind = .string ∧
          t.start = start ∧ t.stop = e ∧ t.text = v) ↔
        start + 2 ≤ e ∧ e ≤ stop ∧ text[e - 1]? = some quote ∧
          Items quote (text.window (start + 1) (e - 1)) (Bytes.ofString v))) ∧
    ∀ (before behind : Bytes) (loc : Location) (v : String),
      let text := before ++ (written quote v ++ behind)
      ∃ d, (Cursor.ofText text before.length text.length loc).next =
        .ok (⟨.string, v, loc, before.length, before.length + (written quote v).length⟩, d) := by
  refine ⟨fun text start stop e loc v hstart => Cursor.next_literal_iff hq hstart,
    fun before behind loc v => ?_⟩
  intro text
  have hquoted := (isQuoted_iff hq).mpr ⟨_, rfl, items_written hq v.toList⟩
  have hrest : (Cursor.ofText text before.length text.length loc).rest =
      quote :: (v.toList.flatMap (escaped quote) ++ [quote] ++ behind) := by
    show text.window before.length text.length = _
    rw [Bytes.window_length, List.drop_left]
    rfl
  exact ⟨_, (Cursor.lies_literal hq hquoted hrest).next⟩

/-- A literal with a character of two bytes and an escape sequence, behind an equals sign,
and a literal that holds its own quote. -/
theorem literals_exact_quoted :
    let text : Bytes := [61, 39, 195, 169, 92, 110, 39, 59]
    isQuote 39 = true ∧ text[1]? = some 39 ∧
    (∃ t d, (Cursor.ofText text 1 8 ⟨1, 2⟩).next = .ok (t, d) ∧ t.kind = .string ∧
      t.start = 1 ∧ t.stop = 7 ∧ t.text = "é\n") ∧
    written 39 "it's" = [39, 105, 116, 92, 39, 115, 39] ∧
    ∃ d, (Cursor.ofText [61, 39, 105, 116, 92, 39, 115, 39, 59] 1 9 ⟨1, 2⟩).next =
      .ok (⟨.string, "it's", ⟨1, 2⟩, 1, 8⟩, d) := by
  intro text
  have hq : isQuote 39 = true := by decide
  have hwritten : written 39 "it's" = [39, 105, 116, 92, 39, 115, 39] := by decide +kernel
  have hitems : Items 39 (text.window 2 6) (Bytes.ofString "é\n") := by
    have hcontent : Bytes.ofString "é\n" = [195, 169, 10] := by decide +kernel
    rw [hcontent]
    exact .byte (by decide) (by decide) (by decide)
      (.byte (by decide) (by decide) (by decide) (.escape (by decide) .nil))
  obtain ⟨hread, hwrite⟩ := literals_exact hq
  refine ⟨hq, rfl, (hread text 1 8 7 ⟨1, 2⟩ "é\n" rfl).mpr ⟨?_, ?_, rfl, hitems⟩, hwritten, ?_⟩
  · decide
  · decide
  · have hnext := hwrite [61] [59] ⟨1, 2⟩ "it's"
    rw [hwritten] at hnext
    exact hnext

end SpanScript
