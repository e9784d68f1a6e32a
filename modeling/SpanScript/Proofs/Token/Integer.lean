import SpanScript.Proofs.Bytes.Utf8
import SpanScript.Proofs.Syntax.Overlong
import SpanScript.Proofs.Text.Decimal

/-!
# Printed integers as tokens

The text of an integer, with blanks before it, is one number token and all of it, if no digit and
no dot comes behind it.

* `Bytes.ofString_toString`: the text is a sign and digits.
* `Lexeme.scan_integer`: its lexeme.
* `Cursor.next_integer`, `Cursor.next_symbol`, `Cursor.next_blanks`: the token, a symbol, and the
  end of a text.
-/

namespace SpanScript

open Alphabet

/-! ## Bytes -/

def byteOf (c : Char) : UInt8 := UInt8.ofNat c.toNat

theorem toNat_byteOf {c : Char} (h : c.toNat < 128) : (byteOf c).toNat = c.toNat :=
  Utf8.toNat_ofNat_lt (by omega)

theorem ofString_of_ascii {t : String} (h : ∀ c ∈ t.toList, c.toNat < 128) :
    Bytes.ofString t = t.toList.map byteOf := by
  unfold Bytes.ofString
  generalize t.toList = cs at h
  induction cs with
  | nil => rfl
  | cons c cs ih =>
    rw [List.flatMap_cons, Utf8.encode_one (h c List.mem_cons_self), List.map_cons,
      ih fun d hd => h d (List.mem_cons_of_mem _ hd)]
    rfl

theorem ascii_map_byteOf {cs : List Char} (h : ∀ c ∈ cs, c.toNat < 128) :
    ascii (cs.map byteOf) = String.ofList cs := by
  have hback : ∀ c ∈ cs, Char.ofNat (byteOf c).toNat = c := by
    intro c hc
    rw [toNat_byteOf (h c hc), Char.ofNat_toNat]
  rw [ascii, List.map_map]
  congr 1
  exact List.map_congr_left hback |>.trans (List.map_id _)

/-- The characters of a printed integer are ASCII. -/
theorem toNat_lt_of_mem_toString {n : Int} {c : Char} (h : c ∈ (toString n).toList) :
    c.toNat < 128 := by
  rw [toList_toString] at h
  rcases List.mem_append.mp h with h | h
  · rw [signOf] at h
    split at h
    · rw [List.mem_singleton.mp h]
      decide
    · cases h
  · have hdigit := toNat_of_isDigit (isDigit_of_mem_digitsOf h)
    omega

theorem Bytes.ofString_toString (n : Int) :
    Bytes.ofString (toString n) = (signOf n).map byteOf ++ (digitsOf n).map byteOf := by
  rw [ofString_of_ascii fun c => toNat_lt_of_mem_toString, toList_toString, List.map_append]

theorem Bytes.ofString_toString_ne_nil (n : Int) : Bytes.ofString (toString n) ≠ [] := by
  intro h
  rw [ofString_toString] at h
  exact digitsOf_ne_nil n (List.map_eq_nil_iff.mp (List.append_eq_nil_iff.mp h).2)

theorem isDigit_of_mem_map {n : Int} {b : UInt8} (h : b ∈ (digitsOf n).map byteOf) :
    isDigit b = true := by
  obtain ⟨c, hc, rfl⟩ := List.mem_map.mp h
  obtain ⟨hlow, hhigh⟩ := toNat_of_isDigit (isDigit_of_mem_digitsOf hc)
  have hbyte := toNat_byteOf (c := c) (by omega)
  rw [isDigit, Bool.and_eq_true, decide_eq_true_eq, decide_eq_true_eq, UInt8.le_iff_toNat_le,
    UInt8.le_iff_toNat_le, hbyte]
  exact ⟨hlow, hhigh⟩

theorem ascii_ofString_toString (n : Int) : ascii (Bytes.ofString (toString n)) = toString n := by
  rw [ofString_of_ascii fun c => toNat_lt_of_mem_toString,
    ascii_map_byteOf fun c => toNat_lt_of_mem_toString, String.ofList_toList]

/-! ## The lexeme -/

/-- What ends a number: nothing, or a byte that is neither a digit nor a dot. -/
def EndsNumber (r : Bytes) : Prop := ∀ d ∈ r.head?, isDigit d = false ∧ d ≠ dot

theorem endsNumber_blanks {r : Bytes} (hr : ∀ a ∈ r, isBlank a = true) : EndsNumber r := by
  intro b hb
  have hblank : (b = 32 ∨ b = 9) ∨ b = 13 := by
    simpa [isBlank] using hr b (List.mem_of_mem_head? hb)
  rcases hblank with (rfl | rfl) | rfl <;> decide

/-- A minus sign and digits are read as one number. -/
theorem Lexeme.scan_minus {ds r : Bytes} (hne : ds ≠ []) (hd : ∀ d ∈ ds, isDigit d = true)
    (hr : EndsNumber r) :
    Lexeme.scan (minus :: (ds ++ r))
      = .ok ⟨.number, ascii (minus :: ds), (minus :: ds).length⟩ := by
  have hsome : ((ds ++ r).takeWhile isDigit).isEmpty = false := by
    obtain ⟨d, ds, rfl⟩ := List.exists_cons_of_ne_nil hne
    rw [List.cons_append, List.takeWhile_cons_of_pos (hd d List.mem_cons_self)]
    rfl
  have hsymbol : symbol? minus = none := by decide
  rw [scan, if_neg (by decide), hsymbol]
  simp only [if_neg (show ¬ isQuote minus = true by decide), beq_self_eq_true, if_true, hsome,
    Bool.false_eq_true, if_false]
  rw [number_digits [minus] hd hr, List.singleton_append]

/-- **A printed integer is one number token.** -/
theorem Lexeme.scan_integer (n : Int) {r : Bytes} (hr : EndsNumber r) :
    Lexeme.scan (Bytes.ofString (toString n) ++ r)
      = .ok ⟨.number, toString n, (Bytes.ofString (toString n)).length⟩ := by
  have hdigits : ∀ d ∈ (digitsOf n).map byteOf, isDigit d = true := fun d => isDigit_of_mem_map
  have hne : (digitsOf n).map byteOf ≠ [] := fun h => digitsOf_ne_nil n (List.map_eq_nil_iff.mp h)
  have htext := ascii_ofString_toString n
  rw [Bytes.ofString_toString] at htext ⊢
  by_cases hsign : n < 0
  · have hminus : (signOf n).map byteOf = [minus] := by
      rw [signOf, if_pos hsign]
      decide
    rw [hminus] at htext ⊢
    rw [List.singleton_append] at htext ⊢
    rw [List.cons_append, scan_minus hne hdigits hr, htext]
  · have hnone : (signOf n).map byteOf = [] := by
      rw [signOf, if_neg hsign]
      rfl
    rw [hnone] at htext ⊢
    rw [List.nil_append] at htext ⊢
    obtain ⟨b, q, hq⟩ := List.exists_cons_of_ne_nil hne
    rw [hq] at hdigits htext ⊢
    rw [List.cons_append, scan_digits hdigits hr, htext]

/-! ## Tokens -/

namespace Cursor

variable {c : Cursor} {w r : Bytes}

/-- The token behind blanks, from its lexeme. -/
theorem lies_of_scan {b : UInt8} {q : Bytes} {kind : TokenKind} {text : String}
    (hc : c.rest = w ++ b :: (q ++ r)) (hw : ∀ a ∈ w, isBlank a = true)
    (hb : beginsTrivia b = false)
    (hscan : Lexeme.scan (b :: (q ++ r)) = .ok ⟨kind, text, q.length + 1⟩) :
    c.Lies w b q ⟨kind, text, c.location.after w, c.offset + w.length,
        c.offset + w.length + (q.length + 1)⟩
      ⟨r, c.offset + w.length + (q.length + 1), c.location.after (w ++ b :: q)⟩ where
  rest := hc
  gap := by rw [hc, gap_blanks hw hb]
  scan := hscan
  place := rfl
  start := rfl
  stop := rfl
  offset := rfl
  location := rfl

/-- A printed integer behind blanks. -/
theorem next_integer {n : Int} (hc : c.rest = w ++ (Bytes.ofString (toString n) ++ r))
    (hw : ∀ a ∈ w, isBlank a = true) (hr : EndsNumber r) :
    c.next = .ok
      (⟨.number, toString n, c.location.after w, c.offset + w.length,
          c.offset + w.length + (Bytes.ofString (toString n)).length⟩,
        ⟨r, c.offset + w.length + (Bytes.ofString (toString n)).length,
          c.location.after (w ++ Bytes.ofString (toString n))⟩) := by
  have hscan := Lexeme.scan_integer n hr
  have hbegins : ∀ b ∈ (Bytes.ofString (toString n)).head?, beginsTrivia b = false := by
    rw [Bytes.ofString_toString]
    intro b hb
    rcases List.mem_append.mp (List.mem_of_mem_head? hb) with hb | hb
    · rw [signOf] at hb
      split at hb
      · rw [List.mem_singleton.mp hb]
        decide
      · cases hb
    · have hne (d : UInt8) (hd : isDigit d = false) : (b == d) = false :=
        beq_of_isDigit (isDigit_of_mem_map hb) hd
      simp [beginsTrivia, isBlank, isSeparator, hne 32 rfl, hne 9 rfl, hne 13 rfl,
        hne Bytes.newline rfl, hne 59 rfl, hne hash rfl]
  cases hbytes : Bytes.ofString (toString n) with
  | nil => exact absurd hbytes (Bytes.ofString_toString_ne_nil n)
  | cons b q =>
    rw [hbytes] at hc hscan hbegins
    exact (lies_of_scan hc hw (hbegins b rfl) hscan).next

/-- A symbol behind blanks. -/
theorem next_symbol {b : UInt8} (kind : TokenKind) (hc : c.rest = w ++ b :: r)
    (hw : ∀ a ∈ w, isBlank a = true) (hb : beginsTrivia b = false) (hkind : symbol? b = some kind) :
    c.next = .ok
      (⟨kind, ascii [b], c.location.after w, c.offset + w.length, c.offset + w.length + 1⟩,
        ⟨r, c.offset + w.length + 1, c.location.after (w ++ [b])⟩) := by
  refine (lies_of_scan (q := []) hc hw hb ?_).next
  rw [Lexeme.scan, if_neg (fun h => ?_), hkind]
  · rfl
  · have hnot := (beginsTrivia_eq_false hb).1
    rw [h, Bool.or_true] at hnot
    cases hnot

/-- The end of a text behind blanks. -/
theorem next_blanks (hw : ∀ a ∈ c.rest, isBlank a = true) :
    ∃ d, c.next = .ok (⟨.eof, "", c.location.after c.rest, c.offset + c.rest.length,
        c.offset + c.rest.length⟩, d) ∧ d.offset = c.offset + c.rest.length := by
  have hgap : gap c.rest = c.rest.length := by
    have h := gap_blanks_append hw []
    rwa [List.append_nil] at h
  have hscan : Lexeme.scan (c.rest.drop (gap c.rest)) = .ok ⟨.eof, "", 0⟩ := by
    rw [hgap, List.drop_length]
    rfl
  unfold Cursor.next
  simp only [move, hscan]
  rw [hgap, List.take_length]
  exact ⟨_, rfl, rfl⟩

end Cursor

end SpanScript
