import SpanScript.Proofs.Syntax.Buffer
import SpanScript.Proofs.Syntax.Overlong
import SpanScript.Proofs.Syntax.Restart
import SpanScript.Proofs.Syntax.Steady
import SpanScript.Proofs.Token.Within

/-!
# A parser reads what a cursor reads

A cursor is what is left of a parser when its buffer is forgotten: it stands behind the last
token that was taken, and lexes the tokens that the parser has kept again.  As long as the
bound is in the text and there has been no fault, nothing shows the difference.  Statements
are read one at a time, each from where the last one ended, so no more is asked of a cursor.

* `Mirrors`: a reader at a cursor that stands for a parser.
* `Lockstep.mirroring`: they are read in step.
* `Mirrors.next`: one statement more; `Mirrors.reached`: any number of them.
* `next_eq`: the first statement, or the fault, and where it ends.
* `Session.parse_eq_parser`: what a session parses is what a parser reads.
-/

namespace SpanScript

open Alphabet Grammar

/-! ## Digits -/

/-- What is written of a number is its sign and digits, if it has no fraction. -/
theorem Lexeme.number_text {sign bs : Bytes} (h : (number sign bs).kind = .number) :
    (number sign bs).text = ascii (sign ++ bs.takeWhile isDigit) := by
  rw [number_eq] at h ⊢
  dsimp only at h ⊢
  split at h
  · next hf => rw [if_pos hf, List.append_nil]
  · cases h

theorem digitCount_minus (bs : Bytes) : digitCount (ascii (minus :: bs)) = bs.length := by
  rw [digitCount, ascii, String.toList_ofList]
  exact List.length_map _

/-- A number in a text has a digit. -/
theorem Lexeme.digitCount_of_scan {bs : Bytes} {l : Lexeme} (h : scan bs = .ok l)
    (hk : l.kind = .number) : digitCount l.text ≠ 0 := by
  cases bs with
  | nil =>
    cases h
    cases hk
  | cons b rest =>
    rw [scan] at h
    split at h
    · cases h
      cases hk
    split at h
    · next hs =>
      cases h
      exact absurd (hk ▸ hs) (symbol?_ne (.inr (.inr (.inr rfl))) b)
    split at h
    · obtain ⟨_, _, _, -, -, rfl⟩ := quoted_eq_ok h
      cases hk
    split at h
    · split at h
      · cases h
      · next hdigits =>
        cases h
        rw [number_text hk, List.singleton_append, digitCount_minus]
        simpa using hdigits
    split at h
    · next hb =>
      cases h
      rw [number_text hk, List.nil_append, List.takeWhile_cons_of_pos hb, digitCount_ascii hb]
      exact Nat.succ_ne_zero _
    split at h
    · cases h
      exact absurd hk (word_kind_ne (by decide) (fun _ => TokenKind.noConfusion) _)
    · cases h

theorem Cursor.digitCount_of_next {c e : Cursor} {x : Token} (h : c.next = .ok (x, e))
    (hk : x.kind = .number) : digitCount x.text ≠ 0 := by
  rw [next] at h
  dsimp only at h
  split at h
  · next l hl =>
    cases h
    exact Lexeme.digitCount_of_scan hl hk
  · cases h

open Reader

namespace Parser

variable {p p' : Parser} {s s' : ReadState} {c e : Cursor} {tail : Bytes} {x : Token}
  {f : LexFault} {pre ext τ : List Token} {l m : Lexer}

namespace Trails

/-- What the parser behind has kept it may forget, and lex again. -/
theorem rewind (h : Trails pre ext p ⟨l, τ, 0⟩) (hm : m.Gives τ l) :
    Trails pre (τ ++ ext) p (start m) where
  tokens := by
    rw [h.tokens, start, List.append_nil, List.append_assoc]
  index := h.index
  gives := hm.append h.gives
  endless := h.endless
  index_le := Nat.le_refl 0

/-- What it has taken it may forget too. -/
theorem forget (h : Trails pre ext p ⟨l, τ, τ.length⟩) : Trails (pre ++ τ) ext p (start l) where
  tokens := by
    rw [h.tokens, start, List.append_nil]
  index := by
    rw [h.index, List.length_append]
    rfl
  gives := h.gives
  endless := h.endless
  index_le := Nat.le_refl 0

end Trails

/-! ## In step -/

/-- A reader at a cursor stands for a parser: the cursor is behind the last token taken, and the
reader has looked as far as the parser has lexed. -/
structure Mirrors (tail : Bytes) (p : Parser) (s : ReadState) : Prop where
  trails : ∃ pre ext, Trails pre ext p (start (s.cursor.lexer tail))
  bound : s.bound = s.cursor.offset + s.cursor.rest.length + 1
  reach : s.reach = p.lexer.index
  taken : s.taken = decide (p.index ≠ 0)
  endOffset : p.index ≠ 0 → p.endOffset = s.cursor.offset

theorem Mirrors.endOffset_eq (h : Mirrors tail p s) : p.endOffset = s.endOffset := by
  rw [ReadState.endOffset, h.taken, h.reach]
  by_cases hp : p.index = 0
  · rw [if_neg (by simpa using hp), Parser.endOffset, hp]
  · rw [if_pos (by simpa using hp), h.endOffset hp]

theorem mirrors_start (c : Cursor) (tail : Bytes) :
    Mirrors tail (start (c.lexer tail)) ⟨c, false, c.offset, c.offset + c.rest.length + 1⟩ where
  trails := ⟨[], [], rfl, rfl, .nil _, List.forall_mem_nil _, Nat.le_refl 0⟩
  bound := rfl
  reach := rfl
  taken := rfl
  endOffset h := absurd rfl h

/-- The cursor `c` is farther on than the reader, behind the tokens `τ`, where a parser would be
that has kept these and no more. -/
structure Farther (tail : Bytes) (p : Parser) (s : ReadState) (τ : List Token) (c : Cursor) :
    Prop where
  gives : (s.cursor.lexer tail).Gives τ (c.lexer tail)
  trails : ∃ pre ext, Trails pre ext p ⟨c.lexer tail, τ, 0⟩
  endless : Endless (p.tokens.take (p.index + τ.length))

theorem Mirrors.farther (h : Mirrors tail p s) : Farther tail p s [] s.cursor := by
  obtain ⟨pre, ext, htrails⟩ := h.trails
  exact ⟨.nil _, ⟨pre, ext, htrails⟩, htrails.endless⟩

/-- Both see the next token. -/
theorem Mirrors.sees (h : Mirrors tail p s) (hc : Farther tail p s τ c)
    (hn : c.next = .ok (x, e)) :
    ∃ pre p', Trails.Sees pre τ.length x p ⟨c.lexer tail, τ, 0⟩ p' ⟨e.lexer tail, τ ++ [x], 0⟩ ∧
      Mirrors tail p' { s with reach := max s.reach x.stop } ∧
      (x.kind ≠ .eof → Farther tail p' { s with reach := max s.reach x.stop } (τ ++ [x]) e) := by
  obtain ⟨pre, ext, htrails⟩ := hc.trails
  have hnext := Cursor.lexer_next_of_ok hn tail
  have hview : Trails.InView p ⟨c.lexer tail, τ, 0⟩ τ.length := ⟨(Nat.zero_add _).le, hc.endless⟩
  obtain ⟨p', hsees, hreach⟩ := htrails.look_lexed (Nat.zero_add _) hc.endless hnext
  obtain ⟨ext', htrails'⟩ := hsees.trails
  have hgives := hc.gives.append (.single hnext)
  have hstop : x.stop = (e.lexer tail).index := hgives.stop_eq
  refine ⟨pre, p', hsees, ⟨⟨pre, _, htrails'.rewind hgives⟩, h.bound, ?_, ?_, ?_⟩, fun hx =>
    ⟨hgives, ⟨pre, ext', htrails'⟩, ?_⟩⟩
  · show max s.reach x.stop = p'.lexer.index
    rw [h.reach, hstop, hreach]
  · rw [hsees.index]
    exact h.taken
  · rw [hsees.index]
    exact fun hp => (hsees.endOffset_eq htrails hp).trans (h.endOffset hp)
  · rw [List.length_append]
    exact (hsees.inView_succ htrails hview hx).endless

/-- Neither sees a token, and both have gone as far. -/
theorem Mirrors.breaks (h : Mirrors tail p s) (hc : Farther tail p s τ c)
    (hn : c.next = .error f) :
    ∃ p', Fails (TokenSource.look τ.length) p (Fault.plain (faultOf f)) p' ∧
      p'.endOffset = ({ s with reach := max s.reach f.reached } : ReadState).endOffset := by
  obtain ⟨pre, ext, htrails⟩ := hc.trails
  obtain ⟨l, hnext, hindex⟩ := Cursor.lexer_next_of_error hn tail
  obtain ⟨hlexer, hbreaks⟩ := htrails.look_fails (Nat.zero_add _) hc.endless hnext
  refine ⟨_, hbreaks.left, ?_⟩
  have hend := h.endOffset
  have hforward := (Lexer.scans_next (c.lexer tail)).leads.index_le
  rw [hnext, hindex, ← show p.lexer = c.lexer tail from hlexer, ← h.reach] at hforward
  rw [ReadState.endOffset, h.taken]
  by_cases hp : p.index = 0
  · rw [if_neg (by simpa using hp), Parser.endOffset, hp, Nat.max_eq_right hforward]
    exact hindex
  · rw [if_pos (by simpa using hp), ← hend hp]
    obtain ⟨i, x, hi, hx⟩ := exists_last hp (htrails.place_le (d := 0) (Nat.zero_le _))
    rw [endOffset_of_kept hi hx, endOffset_of_kept (p := ⟨l, p.tokens, p.index⟩) hi hx]

end Parser

open SpanScript.Parser in
/-- A parser and the reader that stands for it are read in step. -/
def Reader.Lockstep.mirroring (tail : Bytes) : Lockstep id id Parser ReadState where
  Level := Mirrors tail
  Beside p s d c := ∃ τ, τ.length = d ∧ Farther tail p s τ c
  Halted p s := p.endOffset = s.endOffset
  SameFault x y := x = .plain y
  Fair x := x.kind = .number → digitCount x.text ≠ 0
  taken p := p.index
  halted h := h.endOffset_eq
  fault {x y} h := by
    rw [x.relocate_id, y.relocate_id] at h
    exact congrArg Parser.Fault.plain h
  integer {t} hfair hk := by
    have hdigits : (Numeral.sign t.text.toList).2.isEmpty = false := by
      simpa [digitCount] using hfair hk
    have hleft : TokenSource.integer Parser t.text = (Reader.integer t.text).mapError .plain := by
      show Parser.integer t.text = _
      rw [Parser.integer, hdigits]
      rfl
    rw [hleft]
    cases h : Reader.integer t.text with
    | ok v => exact .inl ⟨v, rfl, h⟩
    | error x => exact .inr ⟨_, x, rfl, h, rfl⟩
  bound h := by
    obtain ⟨pre, ext, htrails⟩ := h.trails
    exact (congrArg (· + 1) htrails.gives.leads.bound_eq).trans h.bound.symm
  here h := ⟨[], rfl, h.farther⟩
  look := by
    rintro p s d c h ⟨τ, rfl, hc⟩
    cases hn : c.next with
    | ok y =>
      obtain ⟨x, e⟩ := y
      obtain ⟨pre, p', hsees, hmirrors, hfarther⟩ := h.sees hc hn
      exact .inl ⟨x, _, p', x, e, _, hsees.left, gives_look.mpr ⟨hn, rfl⟩, ⟨rfl, rfl, rfl⟩,
        Cursor.digitCount_of_next hn, hmirrors, hsees.index, fun hx =>
          ⟨τ ++ [x], List.length_append, hfarther hx⟩⟩
    | error f =>
      obtain ⟨p', hp', hend⟩ := h.breaks hc hn
      exact .inr ⟨_, p', _, _, hp', Reader.look_fails hn s, rfl, hend⟩
  again h hx := by
    obtain ⟨pre, ext, htrails⟩ := h.trails
    exact htrails.again hx
  stays := by
    rintro p s d c p' x y e _ ⟨τ, rfl, hc⟩ hx hy
    obtain ⟨pre, ext, htrails⟩ := hc.trails
    exact htrails.stays ⟨(Nat.zero_add _).le, hc.endless⟩ hx hy
  take := by
    rintro p s x q p' y e s' h hx hy he
    obtain ⟨hn, rfl⟩ := gives_look.mp hy
    obtain ⟨pre, u, hsees, hmirrors, -⟩ := h.sees h.farther hn
    obtain ⟨heq, rfl⟩ := hsees.left.unique hx
    cases heq
    obtain ⟨ext, htrails⟩ := hsees.trails
    have hkept : u.tokens[u.index]? = some x := hsees.index ▸ hsees.kept
    have htaken := htrails.take hkept hsees.kept' he
    have hgives := Lexer.Gives.single (Cursor.lexer_next_of_ok hn tail)
    have hbound := hgives.leads.bound_eq
    have hstop : x.stop = e.offset := Lexer.Gives.stop_eq (τ := []) hgives
    refine ⟨⟨⟨_, ext, htaken.forget⟩, ?_, hmirrors.reach, rfl, fun _ => ?_⟩, ?_⟩
    · exact h.bound.trans (congrArg (· + 1) hbound.symm)
    · exact (endOffset_of_kept (p := { u with index := u.index + 1 }) rfl hkept).trans hstop
    · exact hsees.index.symm.trans_lt (Nat.lt_succ_self _)

namespace Parser

variable {p : Parser} {s : ReadState} {tail : Bytes} {types : List TypeName} {nesting : Nat}

/-! ## Statements -/

/-- **One statement more** is the same, and ends at the same offset; so is the fault if there is
none, and it leaves the end of what has been read where it is for both. -/
theorem Mirrors.next (h : Mirrors tail p s) (types : List TypeName) (nesting : Nat) :
    (∃ stmt p' s', p.next types nesting = (.ok stmt, p') ∧
      Reader.next types nesting s = (.ok stmt, s') ∧ Mirrors tail p' s') ∨
    ∃ f p' s', p.next types nesting = (.error (.plain f), p') ∧
      Reader.next types nesting s = (.error f, s') ∧ p'.endOffset = s'.endOffset := by
  rcases agree_oneStatement (L := .mirroring tail) types nesting True h with
    ⟨a, p', b, s', hp, hs, hab, h', -⟩ | ⟨_, p', f, s', hp, hs, rfl, h'⟩
  · obtain rfl : a = b := by
      have hab : a.relocate id = b.relocate id := hab
      rwa [a.relocate_id, b.relocate_id] at hab
    exact .inl ⟨a, p', s', hp, hs, h'⟩
  · exact .inr ⟨f, p', s', hp, hs, h'⟩

/-- Any number of statements more. -/
theorem Mirrors.reached (h : Mirrors tail p s) {p' : Parser} (hp : Reached types nesting p p') :
    ∃ s', Mirrors tail p' s' := by
  induction hp with
  | refl => exact ⟨s, h⟩
  | next _ hn ih =>
    obtain ⟨u, hu⟩ := ih
    rcases hu.next types nesting with ⟨_, q, s', hq, -, hs'⟩ | ⟨_, q, _, hq, -⟩
    · rw [hn] at hq
      cases hq
      exact ⟨s', hs'⟩
    · rw [hn] at hq
      cases hq

/-- **A parser reads what a cursor reads**, from any offset of a text up to any bound in it: the
next statement, or the fault, and where it ends. -/
theorem next_eq (types : List TypeName) (nesting : Nat) {text : Bytes} {stop : Nat}
    (h : stop ≤ text.length) (start : Nat) (loc : Location) :
    ∃ r p s, Reader.next types nesting (.start (.ofText text start stop loc)) = (r, s) ∧
      (Parser.start (.ofText text start stop loc)).next types nesting = (r.mapError .plain, p) ∧
      p.endOffset = s.endOffset := by
  obtain ⟨tail, htail⟩ := Cursor.exists_lexer_of_le h start loc
  rw [htail]
  generalize Cursor.ofText text start stop loc = c
  -- the bound that a parser has is the larger one
  have habreast : Abreast (.start c) ⟨c, false, c.offset, c.offset + c.rest.length + 1⟩ :=
    ⟨rfl, rfl, rfl, ready_start c, Nat.lt_succ_of_le (Nat.le_add_left _ _)⟩
  obtain ⟨r, s, hs⟩ : ∃ r s, Reader.next types nesting (.start c) = (r, s) := ⟨_, _, rfl⟩
  have hsteady := steady_oneStatement types nesting _ _ habreast
  unfold SteadyAt at hsteady
  rw [show (oneStatement types nesting).run.run (.start c) = (r, s) from hs] at hsteady
  obtain ⟨hanswer, hafter⟩ := hsteady
  have hend := hafter.endOffset_eq
  rcases (mirrors_start c tail).next types nesting with
    ⟨stmt, p, s', hp, hs', hmirrors⟩ | ⟨f, p, s', hp, hs', hp'⟩
  · rw [show (oneStatement types nesting).run.run _ = (.ok stmt, s') from hs'] at hanswer hend
    obtain rfl := hanswer
    exact ⟨_, p, s, hs, hp, hmirrors.endOffset_eq.trans hend⟩
  · rw [show (oneStatement types nesting).run.run _ = (.error f, s') from hs'] at hanswer hend
    obtain rfl := hanswer
    exact ⟨_, p, s, hs, hp, hp'.trans hend⟩

end Parser

/-- **What a session parses is what a parser reads** that is begun at the offset, up to the end of
the text. -/
theorem Session.parse_eq_parser (limits : Limits) (text : PlacedText) (offset : Nat) :
    ∃ (r : Except ParseFault Stmt) (p : Parser),
      (Parser.start (.ofText text.text offset text.text.length (text.locate offset))).next
        Kind.names limits.nesting = (r.mapError .plain, p) ∧
      Session.parse limits text offset = r.map fun stmt => (stmt, p.endOffset) := by
  obtain ⟨r, p, s, hs, hp, hend⟩ := Parser.next_eq Kind.names limits.nesting
    (Nat.le_refl text.text.length) offset (text.locate offset)
  refine ⟨r, p, hp, ?_⟩
  rw [Session.parse, hs, hend]
  cases r <;> rfl

end SpanScript
