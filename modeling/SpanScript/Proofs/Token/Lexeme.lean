import Mathlib.Data.List.TakeWhile
import SpanScript.Token.Cursor

/-!
# What a token depends on

A token is the longest run of bytes that it can be, so it depends on its own
bytes and on the one behind them.  `Neutral` bytes end whatever token comes
before them, and a byte that was there before may stay, unless it is a dot: two
more bytes are looked at behind a dot, but no token begins with one, so that a
dot is never behind a token that is followed by another.

* `Lexeme.scan_append`: the bytes behind a token may be exchanged.
* `gap_append`: so may the bytes behind the first byte of a token, as far as the
  gap before it is concerned.
* `Lexeme.length_of_scan`: how long tokens are.
-/

namespace SpanScript

open Alphabet

/-- Bytes that go on with no token, because they are empty or begin with a byte
that no name and no number goes on with. -/
def Neutral (r : Bytes) : Prop := ∀ b ∈ r.head?, isNamePart b = false

/-- Whether `r'` may stand behind a token in the place of `r`. -/
def Replaces (r r' : Bytes) : Prop :=
  Neutral r' ∨ (r'.head? = r.head? ∧ r'.head? ≠ some dot)

theorem Replaces.head_ne_dot {r r' : Bytes} (h : Replaces r r') : r'.head? ≠ some dot := by
  rcases h with h | h
  · intro e
    exact absurd (h dot e) (by decide)
  · exact h.2

/-- Either the class of `f` ends before `r'`, or `r'` begins as `r` does. -/
theorem Replaces.ends {r r' : Bytes} (h : Replaces r r') {f : UInt8 → Bool}
    (hf : ∀ b, f b = true → isNamePart b = true) :
    (∀ b ∈ r'.head?, f b = false) ∨ r'.head? = r.head? := by
  rcases h with h | h
  · refine .inl fun b hb => ?_
    rw [← Bool.not_eq_true]
    intro hfb
    have := hf b hfb
    rw [h b hb] at this
    exact Bool.noConfusion this
  · exact .inr h.1

/-- A run that ends inside `p` or right behind it ends there whatever comes
behind `p`, if that does not go on with the run. -/
theorem takeWhile_append_congr {f : UInt8 → Bool} : ∀ (p : Bytes) {r r' : Bytes},
    ((p ++ r).takeWhile f).length ≤ p.length →
    ((∀ b ∈ r'.head?, f b = false) ∨ r'.head? = r.head?) →
    (p ++ r').takeWhile f = (p ++ r).takeWhile f := by
  intro p
  induction p with
  | nil =>
    intro r r' h hr
    have e : r.takeWhile f = [] := List.length_eq_zero_iff.mp (Nat.le_zero.mp h)
    rw [List.nil_append, List.nil_append, e]
    cases r' with
    | nil => rfl
    | cons b r' =>
      rw [List.takeWhile_cons_of_neg]
      rcases hr with hr | hr
      · rw [hr b rfl]
        exact Bool.noConfusion
      · cases r with
        | nil => simp at hr
        | cons a r =>
          obtain rfl : b = a := by simpa using hr
          intro hb
          rw [List.takeWhile_cons_of_pos hb] at e
          cases e
  | cons a p ih =>
    intro r r' h hr
    by_cases ha : f a = true
    · rw [List.cons_append, List.takeWhile_cons_of_pos ha] at h ⊢
      rw [List.cons_append, List.takeWhile_cons_of_pos ha, ih (Nat.le_of_succ_le_succ h) hr]
    · rw [List.cons_append, List.cons_append, List.takeWhile_cons_of_neg ha,
        List.takeWhile_cons_of_neg ha]

/-- What is left behind a run. -/
theorem dropWhile_eq_drop (f : UInt8 → Bool) (bs : Bytes) :
    bs.dropWhile f = bs.drop (bs.takeWhile f).length := by
  have h := List.takeWhile_append_dropWhile (p := f) (l := bs)
  calc bs.dropWhile f = (bs.takeWhile f ++ bs.dropWhile f).drop (bs.takeWhile f).length :=
        List.drop_left.symm
    _ = bs.drop (bs.takeWhile f).length := by rw [h]

/-! ## Gaps -/

theorem gap_blank {b : UInt8} (h : isBlank b = true) (bs : Bytes) :
    gap (b :: bs) = gap bs + 1 := by
  unfold gap
  rw [List.dropWhile_cons_of_pos h, List.takeWhile_cons_of_pos h]
  cases bs.dropWhile isBlank with
  | nil => rfl
  | cons a rest =>
    simp only
    split
    · simp only [List.length_cons]
      omega
    · rfl

theorem gap_hash (bs : Bytes) :
    gap (hash :: bs) = 1 + (bs.takeWhile (· != Bytes.newline)).length := by
  unfold gap
  rw [List.dropWhile_cons_of_neg (by decide), List.takeWhile_cons_of_neg (by decide)]
  simp

theorem gap_of_not_begins {b : UInt8} (h1 : isBlank b = false) (h2 : (b == hash) = false)
    (bs : Bytes) : gap (b :: bs) = 0 := by
  unfold gap
  rw [List.dropWhile_cons_of_neg (by simp [h1]), List.takeWhile_cons_of_neg (by simp [h1])]
  simp [h2]

/-- Blanks are dropped, and then what would be dropped without them. -/
theorem gap_blanks_append {w : Bytes} (hw : ∀ a ∈ w, isBlank a = true) (bs : Bytes) :
    gap (w ++ bs) = w.length + gap bs := by
  induction w with
  | nil => rw [List.nil_append, List.length_nil, Nat.zero_add]
  | cons a w ih =>
    obtain ⟨ha, hw⟩ := List.forall_mem_cons.mp hw
    rw [List.cons_append, gap_blank ha, ih hw, List.length_cons]
    omega

theorem gap_le : ∀ (bs : Bytes), gap bs ≤ bs.length := by
  intro bs
  induction bs with
  | nil => exact Nat.le_refl _
  | cons b bs ih =>
    by_cases h1 : isBlank b = true
    · rw [gap_blank h1]
      exact Nat.succ_le_succ ih
    · by_cases h2 : (b == hash) = true
      · rw [eq_of_beq h2, gap_hash, Nat.add_comm, List.length_cons]
        exact Nat.succ_le_succ (List.takeWhile_sublist _).length_le
      · rw [gap_of_not_begins (Bool.eq_false_iff.mpr h1) (Bool.eq_false_iff.mpr h2)]
        exact Nat.zero_le _

/-- A gap is known to end where a byte shows. -/
theorem gap_append {b : UInt8} {r r' : Bytes} : ∀ (g : Bytes),
    gap (g ++ b :: r) = g.length → gap (g ++ b :: r') = g.length := by
  intro g
  induction g with
  | nil =>
    intro h
    rw [List.nil_append] at h ⊢
    by_cases h1 : isBlank b = true
    · rw [gap_blank h1] at h
      cases h
    · by_cases h2 : (b == hash) = true
      · rw [eq_of_beq h2, gap_hash, List.length_nil] at h
        omega
      · exact gap_of_not_begins (Bool.eq_false_iff.mpr h1) (Bool.eq_false_iff.mpr h2) _
  | cons a g ih =>
    intro h
    by_cases h1 : isBlank a = true
    · rw [List.cons_append, gap_blank h1, List.length_cons] at h ⊢
      rw [ih (Nat.succ.inj h)]
    · by_cases h2 : (a == hash) = true
      · rw [eq_of_beq h2, List.cons_append, gap_hash, List.length_cons] at h ⊢
        have hg : ((g ++ b :: r).takeWhile (· != Bytes.newline)).length = g.length := by omega
        have he : (g ++ b :: r').takeWhile (· != Bytes.newline)
            = (g ++ b :: r).takeWhile (· != Bytes.newline) :=
          takeWhile_append_congr g (Nat.le_of_eq hg) (.inr rfl)
        rw [he]
        exact h
      · rw [List.cons_append,
          gap_of_not_begins (Bool.eq_false_iff.mpr h1) (Bool.eq_false_iff.mpr h2),
          List.length_cons] at h
        cases h

/-! ## Classes of bytes -/

theorem isNamePart_of_isDigit (b : UInt8) (h : isDigit b = true) : isNamePart b = true := by
  simp [isNamePart, h]

theorem isNamePart_of_isNameStart {b : UInt8} (h : isNameStart b = true) :
    isNamePart b = true := by
  simp [isNamePart, h]

theorem symbol?_ne {k : TokenKind} (h : k = .eof ∨ k = .newline ∨ k = .ident ∨ k = .number)
    (b : UInt8) : symbol? b ≠ some k := by
  unfold symbol?
  rcases h with rfl | rfl | rfl | rfl <;> repeat' split
  all_goals simp

/-! ## Numbers, names and string literals -/

namespace Lexeme

/-- The digits behind a dot at the head. -/
def fractionOf (bs : Bytes) : Bytes :=
  match bs with
  | d :: rest => if d == dot then rest.takeWhile isDigit else []
  | [] => []

theorem number_eq (sign bs : Bytes) :
    number sign bs =
      let whole := bs.takeWhile isDigit
      let fraction := fractionOf (bs.dropWhile isDigit)
      let written := sign ++ whole ++ (if fraction.isEmpty then [] else dot :: fraction)
      ⟨if fraction.isEmpty then .number else .float, ascii written, written.length⟩ := rfl

theorem number_length (sign bs : Bytes) :
    (number sign bs).length = sign.length + (bs.takeWhile isDigit).length +
      (if (fractionOf (bs.dropWhile isDigit)).isEmpty then 0
        else (fractionOf (bs.dropWhile isDigit)).length + 1) := by
  rw [number_eq]
  simp only [List.length_append]
  split <;> rfl

theorem fractionOf_nil_of_head {bs : Bytes} (h : bs.head? ≠ some dot) : fractionOf bs = [] := by
  cases bs with
  | nil => rfl
  | cons d rest => rw [fractionOf, if_neg (by simpa using h)]

theorem fractionOf_dot (bs : Bytes) : fractionOf (dot :: bs) = bs.takeWhile isDigit := by
  rw [fractionOf, if_pos (by decide)]

/-- The fraction ends inside `q` too, or there is none. -/
theorem fractionOf_append {q r r' : Bytes} (hr : Replaces r r')
    (h : (if (fractionOf (q ++ r)).isEmpty then 0 else (fractionOf (q ++ r)).length + 1) =
      q.length) :
    fractionOf (q ++ r') = fractionOf (q ++ r) := by
  cases q with
  | nil =>
    have e : fractionOf r = [] := by
      rw [List.nil_append, List.length_nil] at h
      cases hf : fractionOf r with
      | nil => rfl
      | cons b bs => rw [hf] at h; cases h
    rw [List.nil_append, List.nil_append, e]
    exact fractionOf_nil_of_head hr.head_ne_dot
  | cons d q =>
    by_cases hd : d = dot
    · subst hd
      rw [List.cons_append, fractionOf_dot] at h ⊢
      rw [List.cons_append, fractionOf_dot]
      refine takeWhile_append_congr q ?_ (hr.ends isNamePart_of_isDigit)
      split at h
      · cases h
      · exact Nat.le_of_succ_le_succ (Nat.le_of_eq h)
    · rw [List.cons_append, List.cons_append, fractionOf_nil_of_head (by simpa using hd),
        fractionOf_nil_of_head (by simpa using hd)]

theorem number_append (sign : Bytes) {p r r' : Bytes} (hr : Replaces r r')
    (h : (number sign (p ++ r)).length = sign.length + p.length) :
    number sign (p ++ r') = number sign (p ++ r) := by
  rw [number_length] at h
  have hlen : ((p ++ r).takeWhile isDigit).length ≤ p.length := by omega
  have hw : (p ++ r').takeWhile isDigit = (p ++ r).takeWhile isDigit :=
    takeWhile_append_congr p hlen (hr.ends isNamePart_of_isDigit)
  have hd : (p ++ r).dropWhile isDigit = p.drop ((p ++ r).takeWhile isDigit).length ++ r := by
    rw [dropWhile_eq_drop, List.drop_append_of_le_length hlen]
  have hd' : (p ++ r').dropWhile isDigit = p.drop ((p ++ r).takeWhile isDigit).length ++ r' := by
    rw [dropWhile_eq_drop, hw, List.drop_append_of_le_length hlen]
  have hf : fractionOf ((p ++ r').dropWhile isDigit) = fractionOf ((p ++ r).dropWhile isDigit) := by
    rw [hd] at h
    rw [hd, hd']
    refine fractionOf_append hr ?_
    rw [List.length_drop]
    omega
  rw [number_eq, number_eq, hw, hf]

theorem number_length_le (sign bs : Bytes) :
    (number sign bs).length ≤ sign.length + bs.length := by
  rw [number_length]
  have h := congrArg List.length (List.takeWhile_append_dropWhile (p := isDigit) (l := bs))
  rw [List.length_append] at h
  have hf : (if (fractionOf (bs.dropWhile isDigit)).isEmpty then 0
      else (fractionOf (bs.dropWhile isDigit)).length + 1) ≤ (bs.dropWhile isDigit).length := by
    cases hd : bs.dropWhile isDigit with
    | nil => exact Nat.le_refl _
    | cons d rest =>
      by_cases e : d = dot
      · subst e
        rw [fractionOf_dot]
        split
        · exact Nat.zero_le _
        · exact Nat.succ_le_succ (List.takeWhile_sublist _).length_le
      · rw [fractionOf_nil_of_head (by simpa using e)]
        exact Nat.zero_le _
  omega

theorem number_kind_ne {k : TokenKind} (h1 : k ≠ .number) (h2 : k ≠ .float) (sign bs : Bytes) :
    (number sign bs).kind ≠ k := by
  rw [number_eq]
  simp only
  split
  · exact h1.symm
  · exact h2.symm

theorem word_append {p r r' : Bytes} (hr : Replaces r r')
    (h : (word (p ++ r)).length = p.length) : word (p ++ r') = word (p ++ r) := by
  have e : (p ++ r').takeWhile isNamePart = (p ++ r).takeWhile isNamePart :=
    takeWhile_append_congr p (Nat.le_of_eq h) (hr.ends fun _ hb => hb)
  rw [word, word, e]

theorem word_kind_ne {k : TokenKind} (h1 : k ≠ .ident) (h2 : ∀ w, k ≠ .keyword w) (bs : Bytes) :
    (word bs).kind ≠ k := by
  unfold word
  simp only
  split
  · exact (h2 _).symm
  · exact h1.symm

end Lexeme

/-- What stands behind the opening quote of a string literal, up to and with
the closing one, and the bytes it stands for. -/
inductive IsQuoted (quote : UInt8) : Bytes → Bytes → Prop
  | close : IsQuoted quote [quote] []
  | byte {b : UInt8} {p content : Bytes} : b ≠ quote → b ≠ Bytes.newline → b ≠ backslash →
      IsQuoted quote p content → IsQuoted quote (b :: p) (b :: content)
  | escape {e v : UInt8} {p content : Bytes} : backslash ≠ quote → unescape? e = some v →
      IsQuoted quote p content → IsQuoted quote (backslash :: e :: p) (v :: content)

theorem IsQuoted.read_append {quote : UInt8} {p content : Bytes} (h : IsQuoted quote p content)
    (r : Bytes) : Quoted.read quote (p ++ r) = .closed content p.length := by
  induction h with
  | close =>
    rw [List.cons_append, Quoted.read.eq_def]
    simp
  | byte h1 h2 h3 _ ih =>
    rw [List.cons_append, Quoted.read.eq_def]
    simp only [beq_iff_eq, h1, h2, h3, if_false, ih, Quoted.before]
    rw [List.length_cons, Nat.add_comm]
    rfl
  | escape h1 he _ ih =>
    rw [List.cons_append, List.cons_append, Quoted.read.eq_def]
    simp only [beq_iff_eq, h1, if_false, if_true, he, ih, Quoted.before]
    rw [if_neg (by decide), List.length_cons, List.length_cons, Nat.add_comm]
    rfl

namespace Quoted

theorem before_eq_closed {n m : Nat} {bs content : Bytes} {q : Quoted}
    (h : q.before n bs = .closed content m) :
    ∃ c k, q = .closed c k ∧ content = bs ++ c ∧ m = n + k := by
  cases q with
  | closed c k =>
    simp only [before, closed.injEq] at h
    exact ⟨c, k, rfl, h.1.symm, h.2.symm⟩
  | cut k => cases h
  | badEscape b k => cases h

theorem exists_isQuoted_of_read {quote : UInt8} {bs content : Bytes} {n : Nat}
    (h : read quote bs = .closed content n) :
    ∃ p r, bs = p ++ r ∧ n = p.length ∧ IsQuoted quote p content := by
  fun_induction read quote bs generalizing content n with
  | case1 => cases h
  | case2 b rest hq =>
    simp only [closed.injEq] at h
    obtain ⟨rfl, rfl⟩ := h
    exact ⟨[b], rest, rfl, rfl, by rw [eq_of_beq hq]; exact .close⟩
  | case3 => cases h
  | case4 => cases h
  | case5 b hq hn hb e rest v he ih =>
    obtain ⟨c, k, hc, rfl, rfl⟩ := before_eq_closed h
    obtain ⟨p, r, rfl, rfl, hp⟩ := ih hc
    rw [eq_of_beq hb] at hq ⊢
    refine ⟨backslash :: e :: p, r, rfl, ?_, .escape (by simpa using hq) he hp⟩
    rw [List.length_cons, List.length_cons, Nat.add_comm]
  | case6 => cases h
  | case7 b rest hq hn hb ih =>
    obtain ⟨c, k, hc, rfl, rfl⟩ := before_eq_closed h
    obtain ⟨p, r, rfl, rfl, hp⟩ := ih hc
    refine ⟨b :: p, r, rfl, ?_, .byte (by simpa using hq) (by simpa using hn) ?_ hp⟩
    · rw [List.length_cons, Nat.add_comm]
    · simpa using hb

/-- A string literal that is closed is what it is whatever comes behind it. -/
theorem read_append {quote : UInt8} {p r content : Bytes}
    (h : read quote (p ++ r) = .closed content p.length) (r' : Bytes) :
    read quote (p ++ r') = .closed content p.length := by
  obtain ⟨q, s, e, hl, hq⟩ := exists_isQuoted_of_read h
  obtain ⟨rfl, -⟩ := List.append_inj e hl
  exact hq.read_append r'

end Quoted

/-! ## Tokens -/

namespace Lexeme

theorem quoted_eq_ok {quote : UInt8} {bs : Bytes} {l : Lexeme} (h : quoted quote bs = .ok l) :
    ∃ content n text, Quoted.read quote bs = .closed content n ∧
      Utf8.decode? content = some text ∧ l = ⟨.string, text, n + 1⟩ := by
  unfold quoted at h
  split at h
  · next content n hread =>
    split at h
    · next text htext =>
      cases h
      exact ⟨content, n, text, hread, htext, rfl⟩
    · cases h
  · cases h
  · cases h

/-- **A token depends on its own bytes only**, as long as what comes behind it
goes on with no token or begins as before. -/
theorem scan_append {b : UInt8} {p r r' : Bytes} {l : Lexeme} (hr : Replaces r r')
    (h : scan (b :: (p ++ r)) = .ok l) (hl : l.length = p.length + 1) :
    scan (b :: (p ++ r')) = .ok l := by
  rw [scan] at h ⊢
  split
  · next h1 => rw [if_pos h1] at h; exact h
  next h1 =>
  rw [if_neg h1] at h
  cases hs : symbol? b with
  | some kind => rw [hs] at h; exact h
  | none =>
    rw [hs] at h
    simp only at h ⊢
    split
    · next h2 =>
      rw [if_pos h2] at h
      obtain ⟨content, n, text, hread, htext, rfl⟩ := quoted_eq_ok h
      obtain rfl : n = p.length := Nat.succ.inj hl
      rw [quoted, Quoted.read_append hread r']
      simp only [htext]
    next h2 =>
    rw [if_neg h2] at h
    split
    · next h3 =>
      rw [if_pos h3] at h
      split at h
      · cases h
      · next h4 =>
        cases h
        have hn := number_append [minus] hr (by rw [hl, Nat.add_comm]; rfl)
        have hd : (p ++ r').takeWhile isDigit = (p ++ r).takeWhile isDigit := by
          refine takeWhile_append_congr p ?_ (hr.ends isNamePart_of_isDigit)
          rw [number_length] at hl
          simp only [List.length_cons, List.length_nil] at hl
          omega
        rw [hd, if_neg h4, hn]
    next h3 =>
    rw [if_neg h3] at h
    split
    · next h4 =>
      rw [if_pos h4] at h
      cases h
      have := number_append [] (p := b :: p) hr (by simpa using hl)
      rw [← List.cons_append, this]
      rfl
    next h4 =>
    rw [if_neg h4] at h
    split
    · next h5 =>
      rw [if_pos h5] at h
      cases h
      have := word_append (p := b :: p) hr (by simpa using hl)
      rw [← List.cons_append, this]
      rfl
    · next h5 => rw [if_neg h5] at h; cases h

/-- A token at a byte takes that byte, and no more than there is; it is not the
end. -/
theorem length_of_scan {b : UInt8} {bs : Bytes} {l : Lexeme} (h : scan (b :: bs) = .ok l) :
    l.kind ≠ .eof ∧ 0 < l.length ∧ l.length ≤ bs.length + 1 := by
  rw [scan] at h
  split at h
  · cases h
    exact ⟨TokenKind.noConfusion, Nat.one_pos, Nat.succ_le_succ (Nat.zero_le _)⟩
  split at h
  · next kind hs =>
    cases h
    refine ⟨?_, Nat.one_pos, Nat.succ_le_succ (Nat.zero_le _)⟩
    rintro rfl
    exact symbol?_ne (.inl rfl) b hs
  split at h
  · obtain ⟨content, n, text, hread, -, rfl⟩ := quoted_eq_ok h
    obtain ⟨p, r, rfl, rfl, -⟩ := Quoted.exists_isQuoted_of_read hread
    refine ⟨TokenKind.noConfusion, Nat.succ_pos _, Nat.succ_le_succ ?_⟩
    rw [List.length_append]
    exact Nat.le_add_right _ _
  split at h
  · split at h
    · cases h
    · cases h
      refine ⟨number_kind_ne (by decide) (by decide) _ _, ?_, ?_⟩
      · rw [number_length, Nat.add_assoc]
        exact Nat.lt_add_right _ Nat.one_pos
      · have := number_length_le [minus] bs
        rw [Nat.add_comm] at this
        exact this
  split at h
  · next h4 =>
    cases h
    refine ⟨number_kind_ne (by decide) (by decide) _ _, ?_, ?_⟩
    · rw [number_length, List.takeWhile_cons_of_pos h4]
      simp only [List.length_cons, List.length_nil]
      omega
    · have := number_length_le [] (b :: bs)
      rw [List.length_nil, Nat.zero_add] at this
      exact this
  split at h
  · next h5 =>
    cases h
    refine ⟨word_kind_ne (by decide) (fun _ => TokenKind.noConfusion) _, ?_, ?_⟩
    · rw [word, List.takeWhile_cons_of_pos (isNamePart_of_isNameStart h5)]
      exact Nat.succ_pos _
    · exact (List.takeWhile_sublist (l := b :: bs) _).length_le
  · cases h

theorem scan_dot (bs : Bytes) :
    scan (dot :: bs) = .error { problem := .unexpected dot, length := 0 } := rfl

end Lexeme

end SpanScript
