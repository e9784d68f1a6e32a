import SpanScript.Proofs.Bytes.Search
import SpanScript.Proofs.Token.Lexeme
import SpanScript.Token.Lexer

/-!
# Where a lexer goes

A lexer goes on one offset at a time, and never past its bound.  So all that it comes to
on its way through a buffer is told by an offset: the bytes that are left, and the line and
the column, are those of that offset, whether a token was read there or none could be.

* `Lexer.Leads`: a lexer goes on to another one.
* `Leads.eq_ofText`: it is the lexer at the offset that has been reached.
* `Lexer.Scans`, `scans_scan`: what is known of a token, or of a fault, and of the lexer
  behind it.
* `Lexer.Gives`: the tokens that come on the way.
-/

namespace SpanScript

open Alphabet

/-! ## Places -/

namespace Location

/-- Each offset, in the text or past its end, takes the place on. -/
theorem reached_succ (loc : Location) (text : Bytes) {start i : Nat} (h : start ≤ i) :
    loc.reached text start (i + 1) = (loc.reached text start i).pass text[i]? := by
  have hstep : i ≤ i + 1 := Nat.le_succ i
  unfold reached
  rw [← Bytes.window_append text h hstep, after_append]
  rcases Nat.lt_or_ge i text.length with hi | hi
  · have hbyte : text.window i (i + 1) = [text[i]] := by
      rw [Bytes.window, Nat.add_sub_cancel_left, List.drop_eq_getElem_cons hi]
      rfl
    have hzero : i + 1 - max start text.length = 0 := by omega
    have hzero' : i - max start text.length = 0 := by omega
    rw [hbyte, List.getElem?_eq_getElem hi, hzero, hzero']
    rfl
  · have hnone : text.window i (i + 1) = [] := by
      rw [Bytes.window, List.drop_eq_nil_of_le hi, List.take_nil]
    have hcount : i + 1 - max start text.length = (i - max start text.length) + 1 := by omega
    rw [hnone, List.getElem?_eq_none hi, hcount]
    rfl

theorem reached_self (loc : Location) (text : Bytes) (start : Nat) :
    loc.reached text start start = loc := by
  have hzero : start - max start text.length = 0 := by omega
  unfold reached
  rw [Bytes.window_eq_nil _ (Nat.le_refl _), hzero]
  rfl

end Location

namespace Lexer

variable {start l l' m : Lexer} {kind : TokenKind} {text : String} {τ σ : List Token} {t : Token}

/-! ## Going on -/

/-- A lexer goes on to another one, over offsets in front of its bound. -/
inductive Leads : Lexer → Lexer → Prop
  | refl (l : Lexer) : Leads l l
  | advance {l l' : Lexer} : l.left ≠ 0 → Leads l.advance l' → Leads l l'

namespace Leads

theorem single (h : l.left ≠ 0) : l.Leads l.advance := .advance h (.refl _)

theorem trans (h : l.Leads m) (h' : m.Leads l') : l.Leads l' := by
  induction h with
  | refl => exact h'
  | advance hl _ ih => exact .advance hl (ih h')

/-- The bound stays where it is. -/
theorem bound_eq (h : l.Leads l') : l'.index + l'.left = l.index + l.left := by
  induction h with
  | refl => rfl
  | @advance l l' hl _ ih =>
    have hindex : l.advance.index = l.index + 1 := rfl
    have hleft : l.advance.left = l.left - 1 := rfl
    omega

theorem index_le (h : l.Leads l') : l.index ≤ l'.index := by
  induction h with
  | refl => exact Nat.le_refl _
  | advance _ _ ih => exact Nat.le_of_succ_le ih

/-- **The offset tells everything.** -/
theorem eq_ofText {text : Bytes} {start stop i : Nat} {loc : Location} (hi : start ≤ i)
    (h : (ofText text i stop (loc.reached text start i)).Leads l') :
    l' = ofText text l'.index stop (loc.reached text start l'.index) := by
  generalize hl : ofText text i stop (loc.reached text start i) = l at h
  induction h generalizing i with
  | refl => rw [← hl]; rfl
  | advance _ _ ih =>
    refine ih (Nat.le_succ_of_le hi) ?_
    rw [← hl, Location.reached_succ loc text hi, ofText, ofText, Lexer.advance, peek,
      List.tail_drop, List.head?_drop, Nat.sub_sub]

end Leads

theorem leads_advanceWithin (p : Option UInt8 → Bool) : ∀ {n : Nat} {l : Lexer}, n ≤ l.left →
    l.Leads (advanceWithin p n l) := by
  intro n
  induction n with
  | zero => exact fun _ => .refl _
  | succ n ih =>
    intro l h
    rw [advanceWithin]
    split
    · exact .advance (Nat.ne_zero_of_lt h) (ih (Nat.le_sub_one_of_lt h))
    · exact .refl _

theorem leads_advanceWhile (p : Option UInt8 → Bool) (l : Lexer) : l.Leads (l.advanceWhile p) :=
  leads_advanceWithin p (Nat.le_refl _)

theorem leads_skipGap (l : Lexer) : l.Leads l.skipGap := by
  rw [skipGap]
  split
  · exact (leads_advanceWhile _ l).trans (leads_advanceWhile _ _)
  · exact leads_advanceWhile _ l

/-! ## Tokens -/

/-- A token is read that begins at `start`, from `l` on, or there is a fault.  A newline is
a separator where it begins, and a fault has the place where the token begins, but for an
escape. -/
structure Scans (start l : Lexer) (r : Except LexFault Token × Lexer) : Prop where
  leads : l.Leads r.2
  token : ∀ t, r.1 = .ok t →
    t.start = start.index ∧ t.location = start.location ∧ t.stop = r.2.index
  newline : ∀ t, r.1 = .ok t → t.kind = .newline → start.peek.any isSeparator = true
  fault : ∀ f, r.1 = .error f → f.location = start.location ∨ ∃ b, f.problem = .unknownEscape b

theorem scans_finish (h : l.Leads l') (hk : kind = .newline → start.peek.any isSeparator = true) :
    Scans start l (start.finish kind text l') where
  leads := h
  token := by
    rintro t ⟨⟩
    exact ⟨rfl, rfl, rfl⟩
  newline := by
    rintro t ⟨⟩
    exact hk
  fault := nofun

theorem scans_error {f : LexFault} (h : l.Leads l')
    (hf : f.location = start.location ∨ ∃ b, f.problem = .unknownEscape b) :
    Scans start l (.error f, l') where
  leads := h
  token := nofun
  newline := nofun
  fault := by
    rintro f ⟨⟩
    exact hf

theorem Scans.after {r : Except LexFault Token × Lexer} (h : l.Leads m) (hr : Scans start m r) :
    Scans start l r := ⟨h.trans hr.leads, hr.token, hr.newline, hr.fault⟩

theorem scans_number (start : Lexer) (sign : Bytes) (l : Lexer) :
    Scans start l (start.number sign l) := by
  have hwhole : l.Leads l.skipDigits := leads_advanceWhile _ l
  rw [number]
  split
  · next h =>
    exact scans_finish ((hwhole.trans (.single h.1)).trans (leads_advanceWhile _ _)) nofun
  · exact scans_finish hwhole nofun

theorem scans_word (l : Lexer) : Scans l l l.word := by
  refine scans_finish (leads_advanceWhile _ l) fun hk => ?_
  split at hk <;> cases hk

theorem scans_quoted (start : Lexer) (quote : UInt8) (n : Nat) (raw : Bytes) (l : Lexer)
    (h : n = l.left) : Scans start l (start.quoted quote n raw l) := by
  have hbegin : ∀ {problem : LexProblem} {reached : Nat},
      (⟨problem, start.location, reached⟩ : LexFault).location = start.location ∨
        ∃ b, problem = .unknownEscape b := fun {_ _} => .inl rfl
  fun_induction quoted start quote n raw l with
  | case1 => exact scans_error (.refl _) hbegin
  | case2 => exact scans_finish (.single (h ▸ Nat.succ_ne_zero _)) nofun
  | case3 => exact scans_error (.single (h ▸ Nat.succ_ne_zero _)) hbegin
  | case4 => exact scans_error (.refl _) hbegin
  | case5 => exact scans_error (.single (h ▸ Nat.succ_ne_zero _)) hbegin
  | case6 raw l _ _ _ l₁ n b _ ih =>
    have hone : l.Leads l₁ := .single (h ▸ Nat.succ_ne_zero _)
    have hleft : l₁.left = n + 1 := congrArg (· - 1) h.symm
    have htwo : l₁.Leads l₁.advance := .single (hleft ▸ Nat.succ_ne_zero _)
    exact (ih (congrArg (· - 1) hleft.symm)).after (hone.trans htwo)
  | case7 => exact scans_error (.single (h ▸ Nat.succ_ne_zero _)) (.inr ⟨_, rfl⟩)
  | case8 raw l n _ _ _ ih =>
    exact (ih (congrArg (· - 1) h)).after (.single (h ▸ Nat.succ_ne_zero _))

theorem scans_scan (l : Lexer) : Scans l l l.scan := by
  rw [scan]
  split
  · exact scans_finish (.refl _) nofun
  next hleft =>
  have hone : l.Leads l.advance := .single hleft
  split
  · exact scans_number l [] l
  next b hb =>
  split
  · next hs => exact scans_finish hone fun _ => by rw [hb]; exact hs
  split
  · next kind hk =>
    exact scans_finish hone fun h => absurd (h ▸ hk) (symbol?_ne (.inr (.inl rfl)) b)
  split
  · exact (scans_quoted l b _ [] l.advance rfl).after hone
  split
  · split
    · exact (scans_number l [minus] l.advance).after hone
    · exact scans_error (.refl _) (.inl rfl)
  split
  · exact scans_number l [] l
  split
  · exact scans_word l
  · exact scans_error (.refl _) (.inl rfl)

/-- The next token begins behind the gap. -/
theorem scans_next (l : Lexer) : Scans l.skipGap l l.next :=
  (scans_scan l.skipGap).after (leads_skipGap l)

/-- Reading gives tokens one after another. -/
inductive Gives : Lexer → List Token → Lexer → Prop
  | nil (l : Lexer) : Gives l [] l
  | cons {l m l' : Lexer} {t : Token} {τ : List Token} : l.next = (.ok t, m) → Gives m τ l' →
      Gives l (t :: τ) l'

namespace Gives

theorem leads (h : l.Gives τ l') : l.Leads l' := by
  induction h with
  | nil => exact .refl _
  | cons hn _ ih => exact (congrArg Prod.snd hn ▸ (scans_next _).leads).trans ih

theorem append (h : l.Gives τ m) (h' : m.Gives σ l') : l.Gives (τ ++ σ) l' := by
  induction h with
  | nil => exact h'
  | cons hn _ ih => exact .cons hn (ih h')

theorem single (h : l.next = (.ok t, m)) : l.Gives [t] m := .cons h (.nil m)

/-- There is a place between two tokens. -/
theorem split (h : l.Gives (τ ++ σ) l') : ∃ m, l.Gives τ m ∧ m.Gives σ l' := by
  induction τ generalizing l with
  | nil => exact ⟨l, .nil l, h⟩
  | cons t τ ih =>
    cases h with
    | cons hn h =>
      obtain ⟨m, h1, h2⟩ := ih h
      exact ⟨m, .cons hn h1, h2⟩

/-- The last token ends where the lexer stands. -/
theorem stop_eq (h : l.Gives (τ ++ [t]) l') : t.stop = l'.index := by
  obtain ⟨m, -, h⟩ := h.split
  cases h with
  | cons hn h =>
    cases h
    have hstop := ((scans_next m).token t (congrArg Prod.fst hn)).2.2
    rw [hn] at hstop
    exact hstop

end Gives

end Lexer

end SpanScript
