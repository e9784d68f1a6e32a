import SpanScript.Token.Trivia
import SpanScript.Proofs.Bytes.Search

/-!
# What is trivia

`IsTrivia` says what may stand between statements: blanks, separators, and
comments with the newline that ends each.  `Trivia.skip`, which gives the bytes
behind trivia, and `pastTrivia` are measured against it.

* `Trivia.span_eq`, `pastTrivia_eq`: up to the end of a text, the trivia are what is skipped.
* `IsTrivia.skip_append`: skipping passes over trivia, whatever comes next.
* `exists_isTrivia_of_skip`: what skipping passes over is trivia, unless it came
  to the end, where a comment may be open.
* `pastTrivia_eq_of_isTrivia`, `isTrivia_window_pastTrivia`: the same for offsets.
-/

namespace SpanScript

open Alphabet

/-- Blanks, separators and comments, each comment ended by a newline. -/
inductive IsTrivia : Bytes → Prop
  | nil : IsTrivia []
  | byte {b : UInt8} {w : Bytes} : (isBlank b || isSeparator b) = true → IsTrivia w →
      IsTrivia (b :: w)
  | comment {c w : Bytes} : Bytes.newline ∉ c → IsTrivia w →
      IsTrivia (hash :: (c ++ Bytes.newline :: w))

/-- Blanks are trivia. -/
theorem isTrivia_blanks {w : Bytes} (hw : ∀ b ∈ w, isBlank b = true) : IsTrivia w := by
  induction w with
  | nil => exact .nil
  | cons b w ih =>
    obtain ⟨hb, hw⟩ := List.forall_mem_cons.mp hw
    exact .byte (by rw [hb, Bool.true_or]) (ih hw)

/-- A byte that trivia may begin with. -/
def beginsTrivia (b : UInt8) : Bool := isBlank b || isSeparator b || b == hash

theorem beginsTrivia_eq_false {b : UInt8} (h : beginsTrivia b = false) :
    (isBlank b || isSeparator b) = false ∧ (b == hash) = false := by
  rw [beginsTrivia, Bool.or_eq_false_iff] at h
  exact h

namespace Trivia

/-- The bytes left after the trivia at the head. -/
def skip : Bool → Bytes → Bytes
  | _, [] => []
  | false, b :: rest =>
    if isBlank b || isSeparator b then skip false rest
    else if b == hash then skip true rest
    else b :: rest
  | true, b :: rest => if b == Bytes.newline then skip false rest else skip true rest

theorem skip_suffix : ∀ (bs : Bytes) (inComment : Bool), skip inComment bs <:+ bs := by
  intro bs
  induction bs with
  | nil => intro c; cases c <;> exact List.suffix_refl _
  | cons b rest ih =>
    intro c
    cases c <;> unfold skip
    · split
      · exact (ih false).trans (List.suffix_cons b rest)
      · split
        · exact (ih true).trans (List.suffix_cons b rest)
        · exact List.suffix_refl _
    · split
      · exact (ih false).trans (List.suffix_cons b rest)
      · exact (ih true).trans (List.suffix_cons b rest)

/-- Where the bytes reach as far as the offsets, the trivia are what is skipped. -/
theorem span_add_length : ∀ (bs : Bytes) (inComment : Bool),
    span inComment bs.length bs + (skip inComment bs).length = bs.length := by
  intro bs
  induction bs with
  | nil => intro c; cases c <;> rfl
  | cons b rest ih =>
    intro c
    rw [List.length_cons]
    cases c
    · rw [span, skip]
      split
      · rw [Nat.add_right_comm, ih]
      · split
        · rw [Nat.add_right_comm, ih]
        · exact Nat.zero_add _
    · rw [span, skip, Nat.add_right_comm, bne]
      split
      · next h => rw [h, Bool.not_true, ih]
      · next h => rw [Bool.eq_false_iff.mpr h, Bool.not_false, ih]

/-- Bytes behind the last offset are not looked at. -/
theorem span_take : ∀ (left : Nat) (bs : Bytes) (inComment : Bool),
    span inComment left (bs.take left) = span inComment left bs := by
  intro left
  induction left with
  | zero => intro bs c; cases c <;> simp [span]
  | succ left ih =>
    intro bs c
    cases bs with
    | nil => rfl
    | cons b rest => cases c <;> simp only [List.take_succ_cons, span, ih]

/-- Inside a comment everything up to the newline is skipped. -/
theorem skip_comment : ∀ (c rest : Bytes), Bytes.newline ∉ c →
    skip true (c ++ Bytes.newline :: rest) = skip false rest := by
  intro c
  induction c with
  | nil => intro rest _; rw [List.nil_append, skip, if_pos (by decide)]
  | cons b c ih =>
    intro rest h
    rw [List.mem_cons, not_or] at h
    rw [List.cons_append, skip, if_neg (by simpa using fun e => h.1 e.symm)]
    exact ih rest h.2

theorem skip_of_not_begins {b : UInt8} (h : beginsTrivia b = false) (rest : Bytes) :
    skip false (b :: rest) = b :: rest := by
  obtain ⟨h1, h2⟩ := beginsTrivia_eq_false h
  rw [skip, h1, if_neg (by simp), h2, if_neg (by simp)]

/-- What is left does not begin with trivia. -/
theorem not_begins_of_skip : ∀ (bs : Bytes) (inComment : Bool) (b : UInt8) (rest : Bytes),
    skip inComment bs = b :: rest → beginsTrivia b = false := by
  intro bs
  induction bs with
  | nil => intro c b rest h; cases c <;> simp [skip] at h
  | cons a bs ih =>
    intro c b rest h
    cases c <;> unfold skip at h
    · split at h
      · exact ih false b rest h
      · next h1 =>
        split at h
        · exact ih true b rest h
        · next h2 =>
          obtain ⟨rfl, -⟩ := List.cons.inj h
          rw [beginsTrivia, Bool.or_eq_false_iff]
          exact ⟨Bool.eq_false_iff.mpr h1, Bool.eq_false_iff.mpr h2⟩
    · split at h
      · exact ih false b rest h
      · exact ih true b rest h

end Trivia

theorem IsTrivia.skip_append {w : Bytes} (h : IsTrivia w) (rest : Bytes) :
    Trivia.skip false (w ++ rest) = Trivia.skip false rest := by
  induction h with
  | nil => rfl
  | byte hb _ ih => rw [List.cons_append, Trivia.skip, if_pos hb, ih]
  | @comment c w hc _ ih =>
    rw [List.cons_append, Trivia.skip, if_neg (by decide), if_pos (by decide), List.append_assoc,
      List.cons_append, Trivia.skip_comment _ _ hc, ih]

/-- What is skipped on the way to a byte is trivia; from inside a comment it is
the rest of the comment, and trivia after it. -/
theorem exists_isTrivia_of_skip : ∀ (bs : Bytes),
    (Trivia.skip false bs ≠ [] → ∃ w, IsTrivia w ∧ bs = w ++ Trivia.skip false bs) ∧
    (Trivia.skip true bs ≠ [] → ∃ c w, Bytes.newline ∉ c ∧ IsTrivia w ∧
      bs = c ++ Bytes.newline :: (w ++ Trivia.skip true bs)) := by
  intro bs
  induction bs with
  | nil => exact ⟨fun h => absurd rfl h, fun h => absurd rfl h⟩
  | cons b bs ih =>
    constructor
    · intro h
      by_cases hb : (isBlank b || isSeparator b) = true
      · rw [Trivia.skip, if_pos hb] at h ⊢
        obtain ⟨w, hw, e⟩ := ih.1 h
        exact ⟨b :: w, .byte hb hw, by rw [List.cons_append, ← e]⟩
      · by_cases hh : (b == hash) = true
        · rw [Trivia.skip, if_neg hb, if_pos hh] at h ⊢
          obtain ⟨c, w, hc, hw, e⟩ := ih.2 h
          refine ⟨hash :: (c ++ Bytes.newline :: w), .comment hc hw, ?_⟩
          rw [List.cons_append, List.append_assoc, List.cons_append, ← e, eq_of_beq hh]
        · rw [Trivia.skip, if_neg hb, if_neg hh]
          exact ⟨[], .nil, rfl⟩
    · intro h
      by_cases hb : (b == Bytes.newline) = true
      · rw [Trivia.skip, if_pos hb] at h ⊢
        obtain ⟨w, hw, e⟩ := ih.1 h
        exact ⟨[], w, by simp, hw, by rw [List.nil_append, ← e, eq_of_beq hb]⟩
      · rw [Trivia.skip, if_neg hb] at h ⊢
        obtain ⟨c, w, hc, hw, e⟩ := ih.2 h
        refine ⟨b :: c, w, ?_, hw, by rw [List.cons_append, ← e]⟩
        rw [List.mem_cons, not_or]
        exact ⟨fun e => hb (by rw [← e]; exact beq_self_eq_true _), hc⟩

/-! ## Offsets -/

/-- Where trivia end is told by the bytes in front of the bound. -/
theorem pastTrivia_eq_span (text : Bytes) (index stop : Nat) :
    pastTrivia text index stop
      = index + Trivia.span false (stop - index) (text.window index stop) := by
  rw [pastTrivia, Bytes.window, Trivia.span_take]

/-- Up to the end of a text, trivia are what is skipped. -/
theorem pastTrivia_eq {text : Bytes} (index : Nat) {stop : Nat} (h : stop ≤ text.length) :
    pastTrivia text index stop = index + ((text.window index stop).length
      - (Trivia.skip false (text.window index stop)).length) := by
  have hlength : (text.window index stop).length = stop - index := by
    rw [Bytes.length_window]
    omega
  have hspan := Trivia.span_add_length (text.window index stop) false
  rw [hlength] at hspan
  rw [pastTrivia_eq_span, hlength]
  omega

theorem drop_pastTrivia (text : Bytes) (index : Nat) :
    text.drop (pastTrivia text index text.length) = Trivia.skip false (text.drop index) := by
  obtain ⟨w, hw⟩ := Trivia.skip_suffix (text.drop index) false
  have e : (text.drop index).length - (Trivia.skip false (text.drop index)).length = w.length := by
    have := congrArg List.length hw
    rw [List.length_append] at this
    omega
  rw [pastTrivia_eq _ (Nat.le_refl _), Bytes.window_length, ← List.drop_drop, e]
  conv_lhs => rw [← hw]
  exact List.drop_left

theorem pastTrivia_eq_of_isTrivia {text w rest : Bytes} {index : Nat} {b : UInt8}
    (hw : IsTrivia w) (hb : beginsTrivia b = false) (h : text.drop index = w ++ b :: rest) :
    pastTrivia text index text.length = index + w.length := by
  rw [pastTrivia_eq _ (Nat.le_refl _), Bytes.window_length, h, hw.skip_append,
    Trivia.skip_of_not_begins hb, List.length_append]
  omega

/-- What lies before a byte that is not trivia is. -/
theorem isTrivia_window_pastTrivia {text : Bytes} {index : Nat}
    (h : text.drop (pastTrivia text index text.length) ≠ []) :
    IsTrivia (text.window index (pastTrivia text index text.length)) := by
  have hd := Bytes.drop_eq_window_append text (Trivia.le_pastTrivia text index text.length)
  rw [drop_pastTrivia] at h hd
  obtain ⟨w, hw, e⟩ := (exists_isTrivia_of_skip _).1 h
  have := List.append_cancel_right (hd.symm.trans e)
  rwa [this]

theorem not_begins_of_drop_pastTrivia {text rest : Bytes} {index : Nat} {b : UInt8}
    (h : text.drop (pastTrivia text index text.length) = b :: rest) : beginsTrivia b = false := by
  rw [drop_pastTrivia] at h
  exact Trivia.not_begins_of_skip _ _ _ _ h

end SpanScript
