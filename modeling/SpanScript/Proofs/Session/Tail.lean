import SpanScript.Proofs.Syntax.Exact
import SpanScript.Proofs.Syntax.Sharing
import SpanScript.Proofs.Session.Places

/-!
# Literal text behind a closing marker

A statement with no block in it is read up to a closing brace at most, whether it is a
statement or not: no production takes the brace, and so none looks behind it.  The text
there may be any bytes, among them such as begin no token.

There is one exception.  A name with a bracket behind it may be the target of an assignment,
and to find that out the brackets are counted up to the equals sign behind them.  The count
does not mind braces.  If a bracket is left open before the closing brace, it goes on into
the text behind.

* `LeavesIndexOpen`: tokens of which the exception holds.
* `along_named_bare`, `along_bare`: in all other cases a statement, or why there is none, is
  the same before any text behind the brace.
* `parse_ignores_tail`: the same of what a session parses.
-/

namespace SpanScript

open Alphabet

/-! ## The token at a closing marker -/

/-- Behind blanks the first brace of a closing marker is a token, whatever comes behind the
marker. -/
theorem Cursor.next_closeBraces {w : Bytes} (hw : ∀ b ∈ w, isBlank b = true) (n : Nat)
    (loc : Location) : ∃ u : Token, u.kind = .rbrace ∧
      ∀ r, (Cursor.mk (w ++ (closeBraces ++ r)) n loc).Faces u := by
  refine ⟨⟨.rbrace, ascii [125], loc.after w, n + w.length, n + w.length + 1⟩, rfl, fun r => ?_⟩
  exact ⟨⟨125 :: r, n + w.length + 1, loc.after (w ++ [125])⟩, Lies.next (g := w) (b := 125)
    (q := []) ⟨rfl, gap_blanks hw (by decide) _, rfl, rfl, rfl, rfl, rfl, rfl⟩⟩

namespace Reader

open Grammar

variable {types : List TypeName} {nesting : Nat} {x : LexFault} {s t : ReadState}
  {σ ρ τ : List Token} {e e' : Cursor} {u : Token}

/-- A name comes first, newlines apart, and brackets behind it that are not all closed
before the tokens end. -/
def LeavesIndexOpen (τ : List Token) : Prop :=
  ∃ ν name σ depth, τ = ν ++ name :: σ ∧ IsNewlines ν ∧ name.kind = .ident ∧
    openAfter 0 σ = .ok (depth + 1)

/-- Two places before the same tokens and one closing brace. -/
structure Bare (c c' : Cursor) (ρ : List Token) (e e' : Cursor) (u : Token) : Prop where
  offset : c'.offset = c.offset
  left : c.Reads ρ e
  right : c'.Reads ρ e'
  faces : e.Faces u
  faces' : e'.Faces u
  brace : u.kind = .rbrace
  bare : ∀ v ∈ ρ, v.kind ≠ .lbrace

theorem Bare.shared {c c' : Cursor} (h : Bare c c' ρ e e' u) : Shared x true c c' := by
  obtain ⟨d, hn⟩ := h.faces
  obtain ⟨d', hn'⟩ := h.faces'
  exact ⟨h.offset, ρ, e, e', h.left, h.right, .brace hn hn' h.brace, fun _ => h.bare⟩

theorem Bare.append {c c' : Cursor} (h : Bare c c' (σ ++ ρ) e e' u) : ∃ d d',
    c.Reads σ d ∧ c'.Reads σ d' ∧ Bare d d' ρ e e' u := by
  obtain ⟨d, h1, h2⟩ := h.left.split
  obtain ⟨d', h1', h2'⟩ := h.right.split
  exact ⟨d, d', h1, h1', h1.offset_eq h1' h.offset, h2, h2', h.faces, h.faces', h.brace,
    fun v hv => h.bare v (List.mem_append_right _ hv)⟩

/-- The look past indices stays before the brace if no bracket is open there. -/
theorem along_cellFollows_bare {name : Token} (hst : Sharing x true s t)
    (h : Bare s.cursor t.cursor (name :: σ) e e' u)
    (hopen : ∀ depth, openAfter 0 σ ≠ .ok (depth + 1)) :
    Along x true cellFollows cellFollows s t := by
  obtain ⟨d, hn, -, hr⟩ := h.left.exists_next
  obtain ⟨d', hn', -, hr'⟩ := h.right.exists_next
  have hbound : σ.length + 1 ≤ max s.bound t.bound := by
    have hs : s.cursor.rest.length < s.bound := hst.left
    have hlength := h.left.length_le
    rw [List.length_cons] at hlength
    omega
  obtain ⟨fuel, hfuel⟩ := Nat.exists_eq_add_of_le hbound
  rw [Nat.add_right_comm, Nat.add_assoc] at hfuel
  have hs := run_cellFollows_of_le hst.left (Nat.le_max_left s.bound t.bound)
  have ht := run_cellFollows_of_le hst.right (Nat.le_max_right s.bound t.bound)
  rw [hfuel] at hs ht
  refine .congr hs ht (.gives_bind (gives_look.mpr ⟨hn, rfl⟩) (gives_look.mpr ⟨hn', rfl⟩) ?_)
  have hst' := hst.reach (max s.reach name.stop) (max t.reach name.stop)
  generalize { s with reach := max s.reach name.stop } = s₁ at hst' ⊢
  generalize { t with reach := max t.reach name.stop } = t₁ at hst' ⊢
  obtain ⟨r, -, hrun⟩ := run_brackets hr (fuel + 1) 0 s₁
  obtain ⟨r', -, hrun'⟩ := run_brackets hr' (fuel + 1) 0 t₁
  cases hscan : openAfter 0 σ with
  | error b =>
    rw [hscan] at hrun hrun'
    exact .gives hrun hrun' (hst'.reach _ _)
  | ok depth =>
    obtain rfl : depth = 0 := by
      cases depth with
      | zero => rfl
      | succ depth => exact absurd hscan (hopen depth)
    rw [hscan] at hrun hrun'
    have hne : u.kind ≠ .lbracket := by rw [h.brace]; decide
    exact .gives (hrun.trans (run_brackets_end h.faces hne fuel _))
      (hrun'.trans (run_brackets_end h.faces' hne fuel _)) (hst'.reach _ _)

/-- A statement that begins with a name is read before the brace, unless the look past its
indices goes on behind it. -/
theorem along_named_bare {n : Nat} {name : Token} (hst : Sharing x true s t)
    (h : Bare s.cursor t.cursor (name :: σ) e e' u) (hname : name.kind = .ident)
    (hopen : ∀ depth, openAfter 0 σ ≠ .ok (depth + 1)) :
    Along x true (named types (expression n) name) (named types (expression n) name) s t := by
  have L := compositional_along x true
  have he : ∀ w (p : { p : ReadState × ReadState // Sharing x true p.1 p.2 }),
      Along x true (expression n w) (expression n w) p.1.1 p.1.2 :=
    fun w p => along_expression n w p.2
  refine (Along.peekSecond hst h.left.faces (.inr (by rw [hname]; decide))).bind_gives
    fun v s₁ t₁ hs ht hst₁ => ?_
  rw [← (gives_peekSecond hs).1.cursor_eq, ← (gives_peekSecond ht).1.cursor_eq] at h
  split
  · exact L.declaration (he _) types (i := ⟨(s₁, t₁), hst₁⟩)
  · split
    · exact L.assignment (he _) none (i := ⟨(s₁, t₁), hst₁⟩)
    · split
      · refine (along_cellFollows_bare hst₁ h hopen).bind fun b s₂ t₂ hst₂ => ?_
        split
        · exact L.cellAssignment (he _) (i := ⟨(s₂, t₂), hst₂⟩)
        · exact L.bareExpression (he _) (i := ⟨(s₂, t₂), hst₂⟩)
      · exact L.bareExpression (he _) (i := ⟨(s₁, t₁), hst₁⟩)

/-- Newlines are taken. -/
theorem dropNewlines_gives {ν : List Token} {d : Cursor} {v : Token} (hs : Ready s)
    (hν : IsNewlines ν) (hr : s.cursor.Reads ν d) (hv : d.Faces v) (hne : v.kind ≠ .newline) :
    ∃ s', Gives dropNewlines s () s' ∧ Ready s' ∧ s'.cursor = d := by
  rcases (dropNewlines_parses (P := fun _ _ => False)).complete (a := ()) ⟨hs, hr⟩ hν
    ⟨v, hv, hne⟩ with ⟨s', h, hc⟩ | ⟨_, _, _, _, _, hfalse⟩
  · exact ⟨s', h, hc.ready hs, (hr.unique hc.reads).symm⟩
  · exact hfalse.elim

/-- **The next statement before a closing brace, or why there is none, does not depend on
what is behind the brace**, if the tokens before it open no block and leave no index open. -/
theorem along_bare (types : List TypeName) (nesting : Nat) (hs : Ready s) (ht : Ready t)
    (h : Bare s.cursor t.cursor τ e e' u) (hopen : ¬ LeavesIndexOpen τ) :
    Along x true (oneStatement types nesting) (oneStatement types nesting) s t := by
  -- the newlines, and what comes behind them
  obtain ⟨ν, ρ, rfl, hν, hρ⟩ : ∃ ν ρ, τ = ν ++ ρ ∧ IsNewlines ν ∧
      ∀ v ∈ ρ.head?, v.kind ≠ .newline := by
    refine ⟨τ.takeWhile (·.kind == .newline), τ.dropWhile (·.kind == .newline),
      List.takeWhile_append_dropWhile.symm, fun v hv => ?_, fun v hv => ?_⟩
    · exact eq_of_beq (List.mem_takeWhile_imp (p := fun v : Token => v.kind == .newline) hv)
    · have hfalse := List.head?_dropWhile_not (fun v : Token => v.kind == .newline) τ
      rw [Option.mem_def.mp hv] at hfalse
      exact ne_of_beq_false (by simpa using hfalse)
  obtain ⟨d, d', hd, hd', hbare⟩ := h.append
  obtain ⟨v, hv, hv', hne⟩ : ∃ v, d.Faces v ∧ d'.Faces v ∧ v.kind ≠ .newline := by
    cases ρ with
    | nil =>
      obtain rfl := hbare.left.unique .nil
      obtain rfl := hbare.right.unique .nil
      exact ⟨u, hbare.faces, hbare.faces', by rw [hbare.brace]; decide⟩
    | cons w ρ => exact ⟨w, hbare.left.faces, hbare.right.faces, hρ w rfl⟩
  obtain ⟨s₁, h1, hs₁, rfl⟩ := dropNewlines_gives hs hν hd hv hne
  obtain ⟨t₁, h1', ht₁, rfl⟩ := dropNewlines_gives ht hν hd' hv' hne
  -- the statement
  refine .gives_bind h1 h1' (.peek_bind ⟨hbare.shared, hs₁, ht₁⟩ fun w _ _ s₂ t₂ hn hs ht hst => ?_)
  rw [if_neg hn.ne_eof]
  rw [← hs, ← ht] at hbare
  cases nesting with
  | zero => exact .throw _
  | succ n =>
    refine (compositional_along x true).statement_succ (i := ⟨(s₂, t₂), hst⟩)
      (fun w p => along_expression n w p.2) (fun name p hp hname hk => ?_) fun p => .block p.2
    obtain ⟨hp1, hp2⟩ := Prod.ext_iff.mp hp
    have hp1 : p.1.1.cursor = s₂.cursor := hp1
    have hp2 : p.1.2.cursor = t₂.cursor := hp2
    rw [← hp1, ← hp2] at hbare
    have hname : p.1.1.cursor.Faces name := hname
    cases ρ with
    | nil =>
      rw [← hbare.left.unique .nil] at hname
      rw [hname.unique hbare.faces, hbare.brace] at hk
      cases hk
    | cons w σ =>
      obtain rfl := hname.unique hbare.left.faces
      exact along_named_bare p.2 hbare hk fun depth hdepth =>
        hopen ⟨ν, name, σ, depth, rfl, hν, hk, hdepth⟩

end Reader

namespace Session

open Reader

/-- **What is parsed does not depend on the text behind a closing marker**, whether it is a
statement or why there is none.  A text with tokens, among which no block is opened and no
index left open, comes before the marker; any bytes may come behind it. -/
theorem parse_ignores_tail {limits : Limits} {text text' : PlacedText} {offset : Nat}
    {s tail tail' : Bytes} {τ : List Token} {d : Cursor}
    (hs : (Cursor.mk s offset (text.locate offset)).Reads τ d)
    (hblank : ∀ b ∈ d.rest, isBlank b = true) (hbare : ∀ t ∈ τ, t.kind ≠ .lbrace)
    (hindex : ¬ LeavesIndexOpen τ)
    (ht : text.text.drop offset = s ++ (closeBraces ++ tail))
    (ht' : text'.text.drop offset = s ++ (closeBraces ++ tail'))
    (hl : text'.locate offset = text.locate offset) :
    parse limits text' offset = parse limits text offset := by
  obtain ⟨p, hp, -, -, -⟩ := hs.exists_bytes
  have hp : s = p ++ d.rest := hp
  have hreads : ∀ {text : PlacedText} {tail : Bytes} {loc : Location},
      text.text.drop offset = s ++ (closeBraces ++ tail) → text.locate offset = loc →
      (Cursor.mk s offset loc).Reads τ d →
      (Cursor.ofText text.text offset text.text.length (text.locate offset)).Reads τ
        ⟨d.rest ++ (closeBraces ++ tail), d.offset, d.location⟩ := by
    intro text tail loc ht hl hs
    have hrest : text.text.window offset text.text.length
        = p ++ (d.rest ++ (closeBraces ++ tail)) := by
      rw [Bytes.window_length, ht, hp]
      simp only [List.append_assoc]
    rw [Cursor.ofText, hrest, hl]
    exact hs.exchange hp (neutral_blanks hblank (by decide) _)
  obtain ⟨u, hu, hfaces⟩ := Cursor.next_closeBraces hblank d.offset d.location
  have hboth : Bare
      (.ofText text.text offset text.text.length (text.locate offset))
      (.ofText text'.text offset text'.text.length (text'.locate offset)) τ _ _ u :=
    ⟨rfl, hreads ht rfl hs, hreads ht' hl hs, hfaces tail, hfaces tail', hu, hbare⟩
  cases along_bare (x := ⟨.unterminated, ⟨0, 0⟩, 0⟩) Kind.names limits.nesting
    (ready_start _) (ready_start _) hboth hindex with
  | breaks hb => cases hb
  | fails h h' => rw [parse_eq_error.mpr ⟨_, h⟩, parse_eq_error.mpr ⟨_, h'⟩]
  | gives h h' hst =>
    obtain ⟨-, -, -, -, hend, -⟩ := next_sound h
    obtain ⟨-, -, -, -, hend', -⟩ := next_sound h'
    rw [parse_eq_ok.mpr ⟨_, h, hend⟩, parse_eq_ok.mpr ⟨_, h', hend'⟩, hst.shared.offset]

/-- A call that is not closed, and behind the marker nothing or a byte of no text: the
parenthesis is missed in both cases. -/
theorem parse_ignores_tail_call :
    parse .standard (.ofBytes [102, 40, 49, 125, 125]) 0
        = .error (.located (.tokenExpected .rparen .rbrace) ⟨1, 4⟩) ∧
      parse .standard (.ofBytes [102, 40, 49, 125, 125, 255]) 0
        = .error (.located (.tokenExpected .rparen .rbrace) ⟨1, 4⟩) := by
  have hreads : (Cursor.mk [102, 40, 49] 0 ⟨1, 1⟩).Reads
      [⟨.ident, "f", ⟨1, 1⟩, 0, 1⟩, ⟨.lparen, "(", ⟨1, 2⟩, 1, 2⟩, ⟨.number, "1", ⟨1, 3⟩, 2, 3⟩]
      ⟨[], 3, ⟨1, 4⟩⟩ :=
    .cons (d := ⟨[40, 49], 1, ⟨1, 2⟩⟩) (by decide +kernel) (by decide)
      (.cons (d := ⟨[49], 2, ⟨1, 3⟩⟩) (by decide +kernel) (by decide)
        (.cons (by decide +kernel) (by decide) .nil))
  have hindex : ¬ LeavesIndexOpen
      [⟨.ident, "f", ⟨1, 1⟩, 0, 1⟩, ⟨.lparen, "(", ⟨1, 2⟩, 1, 2⟩,
        ⟨.number, "1", ⟨1, 3⟩, 2, 3⟩] := by
    rintro ⟨ν, name, σ, depth, h, hν, -, hopen⟩
    cases ν with
    | nil =>
      obtain ⟨-, rfl⟩ := List.cons.inj h
      cases hopen
    | cons v ν =>
      obtain ⟨rfl, -⟩ := List.cons.inj h
      exact absurd (hν _ List.mem_cons_self) (by decide)
  have htext : (PlacedText.ofBytes [102, 40, 49, 125, 125]).text.drop 0
      = [102, 40, 49] ++ (closeBraces ++ []) := rfl
  have htext' : (PlacedText.ofBytes [102, 40, 49, 125, 125, 255]).text.drop 0
      = [102, 40, 49] ++ (closeBraces ++ [255]) := rfl
  have hsame : parse .standard (.ofBytes [102, 40, 49, 125, 125, 255]) 0
      = parse .standard (.ofBytes [102, 40, 49, 125, 125]) 0 :=
    parse_ignores_tail hreads (List.forall_mem_nil _) (by decide) hindex htext htext' rfl
  have hfirst : parse .standard (.ofBytes [102, 40, 49, 125, 125]) 0
      = .error (.located (.tokenExpected .rparen .rbrace) ⟨1, 4⟩) :=
    error_of_map_parse (by decide +kernel)
  exact ⟨hfirst, hsame.trans hfirst⟩

/-- **An index that is left open lets the text behind the marker in**: the bracket is missed
before the marker, or a byte behind it begins no token. -/
theorem open_index_reads_tail :
    ¬ ∀ (s tail tail' : Bytes) (τ : List Token) (d : Cursor),
      (Cursor.mk s 0 ⟨1, 1⟩).Reads τ d → (∀ b ∈ d.rest, isBlank b = true) →
      (∀ t ∈ τ, t.kind ≠ .lbrace) →
      parse .standard (.ofBytes (s ++ (closeBraces ++ tail'))) 0
        = parse .standard (.ofBytes (s ++ (closeBraces ++ tail))) 0 := by
  intro hsame
  have hreads : (Cursor.mk [120, 91, 49] 0 ⟨1, 1⟩).Reads
      [⟨.ident, "x", ⟨1, 1⟩, 0, 1⟩, ⟨.lbracket, "[", ⟨1, 2⟩, 1, 2⟩, ⟨.number, "1", ⟨1, 3⟩, 2, 3⟩]
      ⟨[], 3, ⟨1, 4⟩⟩ :=
    .cons (d := ⟨[91, 49], 1, ⟨1, 2⟩⟩) (by decide +kernel) (by decide)
      (.cons (d := ⟨[49], 2, ⟨1, 3⟩⟩) (by decide +kernel) (by decide)
        (.cons (by decide +kernel) (by decide) .nil))
  have hfirst : parse .standard (.ofBytes [120, 91, 49, 125, 125]) 0
      = .error (.located (.tokenExpected .rbracket .rbrace) ⟨1, 4⟩) :=
    error_of_map_parse (by decide +kernel)
  have hsecond : parse .standard (.ofBytes [120, 91, 49, 125, 125, 255]) 0
      = .error (.located (.lexical (.unexpected 255)) ⟨1, 6⟩) :=
    error_of_map_parse (by decide +kernel)
  have h := hsame [120, 91, 49] [] [255] _ _ hreads (List.forall_mem_nil _) (by decide)
  have h : parse .standard (.ofBytes [120, 91, 49, 125, 125, 255]) 0
      = parse .standard (.ofBytes [120, 91, 49, 125, 125]) 0 := h
  rw [hfirst, hsecond] at h
  cases h

end Session

end SpanScript
