import SpanScript.Proofs.Syntax.Lockstep
import SpanScript.Proofs.Token.Walk
import SpanScript.Syntax.Parser

/-!
# What a parser has looked at

A parser keeps the tokens that it has looked at, and lexes one more where they end.  What
it has kept is on the way of its lexer, so another parser that stands farther back on that
way, with fewer tokens kept or none, comes to the same tokens.

* `gives_look_kept`, `gives_look_lexed`, `look_fails_lexed`: what looking comes to.
* `Trails`: a parser that has taken and kept more than another one.
* `Trails.look_kept`, `Trails.look_lexed`, `Trails.look_fails`: both look alike, where the one
  behind has kept a token, and where it lexes one more.
* `Trails.take`: both take the token that comes next.
-/

namespace SpanScript

open Reader

namespace Parser

variable {p s s' t t' : Parser} {d : Nat} {x : Token} {f : LexFault} {l : Lexer}
  {τ σ pre ext : List Token}

/-- The end is not among the tokens. -/
def Endless (τ : List Token) : Prop := ∀ x ∈ τ, x.kind ≠ .eof

theorem endless_concat (h : Endless τ) (hx : x.kind ≠ .eof) : Endless (τ ++ [x]) :=
  List.forall_mem_append.mpr ⟨h, List.forall_mem_singleton.mpr hx⟩

/-! ## Looking -/

/-- A token that has been kept. -/
theorem gives_look_kept (h : p.tokens[p.index + d]? = some x) :
    Gives (TokenSource.look d) p (x, d + 1) p := by
  have hlookahead : Gives (lookahead d) p x p := by
    refine (gives_get.mpr ⟨rfl, rfl⟩).bind ?_
    rw [h]
    rfl
  exact hlookahead.bind rfl

/-- The lexer comes in where no token is kept, and the end is not behind. -/
theorem lookahead_eq_more (h : p.index + d = p.tokens.length) :
    (lookahead d).run.run p = more.run.run p := by
  have hnone : p.tokens[p.index + d]? = none := List.getElem?_eq_none h.ge
  rw [lookahead, run_get, hnone, h, Nat.sub_self]
  rfl

theorem filter_getLast?_eq_none (h : Endless τ) : τ.getLast?.filter (·.kind = .eof) = none := by
  rw [Option.filter_eq_none_iff]
  exact fun x hx => by simpa using h x (List.mem_of_getLast? hx)

theorem run_more (h : Endless p.tokens) : more.run.run p =
    match p.lexer.next with
    | (.ok x, l) => (.ok x, ⟨l, p.tokens ++ [x], p.index⟩)
    | (.error f, l) => (.error (.plain (faultOf f)), ⟨l, p.tokens, p.index⟩) := by
  rw [more, run_get, filter_getLast?_eq_none h]
  obtain ⟨r, l⟩ := p.lexer.next
  cases r <;> rfl

/-- A token that is lexed. -/
theorem gives_look_lexed (hd : p.index + d = p.tokens.length) (h : Endless p.tokens)
    (hn : p.lexer.next = (.ok x, l)) :
    Gives (TokenSource.look d) p (x, d + 1) ⟨l, p.tokens ++ [x], p.index⟩ := by
  have hlookahead : Gives (lookahead d) p x ⟨l, p.tokens ++ [x], p.index⟩ := by
    unfold Gives
    rw [lookahead_eq_more hd, run_more h, hn]
  exact hlookahead.bind rfl

/-- Where no token can be lexed the lexer goes on alone. -/
theorem look_fails_lexed (hd : p.index + d = p.tokens.length) (h : Endless p.tokens)
    (hn : p.lexer.next = (.error f, l)) :
    Fails (TokenSource.look d) p (Fault.plain (faultOf f)) ⟨l, p.tokens, p.index⟩ := by
  have hlookahead : Fails (lookahead d) p (Fault.plain (faultOf f)) ⟨l, p.tokens, p.index⟩ := by
    unfold Fails
    rw [lookahead_eq_more hd, run_more h, hn]
  exact hlookahead.bind _

/-! ## Where the last token ends -/

theorem endOffset_of_kept {i : Nat} (hi : p.index = i + 1) (hx : p.tokens[i]? = some x) :
    p.endOffset = x.stop := by
  rw [endOffset, hi]
  dsimp only
  rw [hx]
  rfl

theorem exists_last (hp : p.index ≠ 0) (hle : p.index ≤ p.tokens.length) :
    ∃ i x, p.index = i + 1 ∧ p.tokens[i]? = some x := by
  obtain ⟨i, hi⟩ := Nat.exists_eq_succ_of_ne_zero hp
  exact ⟨i, _, hi, List.getElem?_eq_getElem (Nat.lt_of_lt_of_le (hi ▸ Nat.lt_succ_self i) hle)⟩

/-! ## A parser behind another one -/

/-- The parser `s` has taken the tokens `pre` that `t` begins behind, and it has kept
the tokens `ext` that are in front of the lexer of `t`. -/
structure Trails (pre ext : List Token) (s t : Parser) : Prop where
  tokens : s.tokens = pre ++ t.tokens ++ ext
  index : s.index = pre.length + t.index
  gives : t.lexer.Gives ext s.lexer
  endless : Endless (s.tokens.take s.index)
  index_le : t.index ≤ t.tokens.length

namespace Trails

/-- What the parser behind has kept the other one has. -/
theorem getElem?_eq (h : Trails pre ext s t) (hd : t.index + d < t.tokens.length) :
    s.tokens[s.index + d]? = t.tokens[t.index + d]? := by
  rw [h.tokens, h.index, List.append_assoc, Nat.add_assoc,
    List.getElem?_append_right (Nat.le_add_right _ _), Nat.add_sub_cancel_left,
    List.getElem?_append_left hd]

/-- The tokens up to a place. -/
theorem take_eq (h : Trails pre ext s t) (hd : t.index + d = t.tokens.length) :
    s.tokens.take (s.index + d) = pre ++ t.tokens := by
  rw [h.tokens, h.index, Nat.add_assoc, hd, ← List.length_append, List.take_left]

theorem place_eq (h : Trails pre ext s t) (hd : t.index + d = t.tokens.length) :
    s.index + d = (pre ++ t.tokens).length := by
  rw [h.index, Nat.add_assoc, hd, List.length_append]

/-- A place that the parser behind has reached the other one has. -/
theorem place_le (h : Trails pre ext s t) (hd : t.index + d ≤ t.tokens.length) :
    s.index + d ≤ s.tokens.length := by
  rw [h.tokens, h.index, List.length_append, List.length_append]
  omega

/-- A token that the parser behind has kept is seen by both. -/
theorem look_kept (h : Trails pre ext s t) (hd : t.index + d < t.tokens.length) :
    ∃ x, t.tokens[t.index + d]? = some x ∧ s.tokens[s.index + d]? = some x := by
  have hx := List.getElem?_eq_getElem hd
  exact ⟨_, hx, (h.getElem?_eq hd).trans hx⟩

/-- Where the other one has kept nothing more, both lexers stand at one place. -/
theorem lexer_eq (h : Trails pre [] s t) : s.lexer = t.lexer := by
  have hgives := h.gives
  generalize s.lexer = m at hgives
  cases hgives
  rfl

theorem tokens_eq (h : Trails pre [] s t) : s.tokens = pre ++ t.tokens := by
  rw [h.tokens, List.append_nil]

/-- One more token is lexed by both. -/
theorem lexed (h : Trails pre [] s t) (x : Token) (l : Lexer) :
    Trails pre [] ⟨l, s.tokens ++ [x], s.index⟩ ⟨l, t.tokens ++ [x], t.index⟩ where
  tokens := by rw [h.tokens_eq, List.append_assoc, List.append_nil]
  index := h.index
  gives := .nil l
  endless := by
    show Endless ((s.tokens ++ [x]).take s.index)
    have hle : s.index ≤ s.tokens.length := h.place_le (d := 0) h.index_le
    rw [List.take_append_of_le_length hle]
    exact h.endless
  index_le := h.index_le.trans (List.prefix_append _ _).length_le

/-- One more token is lexed by the parser behind, which the other one has kept. -/
theorem caughtUp (h : Trails pre (x :: ext) s t) (hg : l.Gives ext s.lexer) :
    Trails pre ext s ⟨l, t.tokens ++ [x], t.index⟩ where
  tokens := by rw [h.tokens, List.append_cons, List.append_assoc pre]
  index := h.index
  gives := hg
  endless := h.endless
  index_le := h.index_le.trans (List.prefix_append _ _).length_le

/-- A distance at which both parsers may look: in front of the end, and no farther than where
the one behind has its next token to lex. -/
structure InView (s t : Parser) (d : Nat) : Prop where
  le : t.index + d ≤ t.tokens.length
  endless : Endless (s.tokens.take (s.index + d))

theorem inView (h : Trails pre ext s t) : InView s t 0 := ⟨h.index_le, h.endless⟩

/-- Both parsers see the token `x` at a distance, and have kept it then. -/
structure Sees (pre : List Token) (d : Nat) (x : Token) (s t s' t' : Parser) : Prop where
  left : Gives (TokenSource.look d) s (x, d + 1) s'
  right : Gives (TokenSource.look d) t (x, d + 1) t'
  index : s'.index = s.index
  index' : t'.index = t.index
  kept : s'.tokens[s.index + d]? = some x
  kept' : t'.tokens[t.index + d]? = some x
  keeps : s.tokens <+: s'.tokens
  gives : ∀ m : Lexer, m.Gives s.tokens s.lexer → m.Gives s'.tokens s'.lexer
  trails : ∃ ext, Trails pre ext s' t'

/-- No token comes at a distance, for the same reason. -/
structure Breaks (pre : List Token) (d : Nat) (f : LexFault) (s t s' t' : Parser) : Prop where
  left : Fails (TokenSource.look d) s (Fault.plain (faultOf f)) s'
  right : Fails (TokenSource.look d) t (Fault.plain (faultOf f)) t'
  trails : Trails pre [] s' t'

/-- A token that the parser behind lexes has been kept by the other one, or it is lexed
there too. -/
theorem look_lexed (h : Trails pre ext s t) (hd : t.index + d = t.tokens.length)
    (he : Endless (s.tokens.take (s.index + d))) (hn : t.lexer.next = (.ok x, l)) :
    ∃ s', Sees pre d x s t s' ⟨l, t.tokens ++ [x], t.index⟩ ∧
      s'.lexer.index = max s.lexer.index l.index := by
  rw [h.take_eq hd] at he
  have ht := gives_look_lexed hd (fun y hy => he y (List.mem_append_right _ hy)) hn
  have hkept' : (t.tokens ++ [x])[t.index + d]? = some x := by
    rw [hd, List.getElem?_concat_length]
  cases ext with
  | nil =>
    have hlexer := h.lexer_eq
    have hs : s.index + d = s.tokens.length := by rw [h.place_eq hd, h.tokens_eq]
    have hkept : (s.tokens ++ [x])[s.index + d]? = some x := by
      rw [hs, List.getElem?_concat_length]
    rw [← h.tokens_eq] at he
    rw [← hlexer] at hn
    have hforward := (Lexer.Gives.single hn).leads.index_le
    exact ⟨_, ⟨gives_look_lexed hs he hn, ht, rfl, rfl, hkept, hkept', List.prefix_append _ _,
      fun m hm => hm.append (.single hn), [], h.lexed x l⟩, (Nat.max_eq_right hforward).symm⟩
  | cons y ext =>
    obtain ⟨rfl, hgives⟩ : y = x ∧ l.Gives ext s.lexer := by
      cases h.gives with
      | cons hn' hgives =>
        rw [hn] at hn'
        cases hn'
        exact ⟨rfl, hgives⟩
    have hkept : s.tokens[s.index + d]? = some y := by
      rw [h.tokens, h.place_eq hd, List.getElem?_append_right (Nat.le_refl _), Nat.sub_self]
      rfl
    exact ⟨s, ⟨gives_look_kept hkept, ht, rfl, rfl, hkept, hkept', List.prefix_refl _,
      fun _ => id, ext, h.caughtUp hgives⟩, (Nat.max_eq_left hgives.leads.index_le).symm⟩

/-- Where the parser behind can lex no token, neither can the other one: both lexers stand at
one place. -/
theorem look_fails (h : Trails pre ext s t) (hd : t.index + d = t.tokens.length)
    (he : Endless (s.tokens.take (s.index + d))) (hn : t.lexer.next = (.error f, l)) :
    s.lexer = t.lexer ∧
      Breaks pre d f s t ⟨l, s.tokens, s.index⟩ ⟨l, t.tokens, t.index⟩ := by
  rw [h.take_eq hd] at he
  have ht := look_fails_lexed hd (fun y hy => he y (List.mem_append_right _ hy)) hn
  cases ext with
  | cons y ext =>
    cases h.gives with
    | cons hn' => exact nomatch hn.symm.trans hn'
  | nil =>
    have hs : s.index + d = s.tokens.length := by rw [h.place_eq hd, h.tokens_eq]
    rw [← h.tokens_eq] at he
    exact ⟨h.lexer_eq, look_fails_lexed hs he (h.lexer_eq ▸ hn), ht,
      h.tokens, h.index, .nil l, h.endless, h.index_le⟩

/-- **A parser and one behind it look alike**, in front of the end. -/
theorem looks (h : Trails pre ext s t) (hv : InView s t d) :
    (∃ x s' t', Sees pre d x s t s' t') ∨ ∃ f s' t', Breaks pre d f s t s' t' := by
  rcases Nat.lt_or_eq_of_le hv.le with hlt | heq
  · obtain ⟨x, ht, hs⟩ := h.look_kept hlt
    exact .inl ⟨x, s, t, gives_look_kept hs, gives_look_kept ht, rfl, rfl, hs, ht,
      List.prefix_refl _, fun _ => id, ext, h⟩
  · obtain ⟨r, l, hn⟩ : ∃ r l, t.lexer.next = (r, l) := ⟨_, _, rfl⟩
    cases r with
    | ok x =>
      obtain ⟨s', hsees, -⟩ := h.look_lexed heq hv.endless hn
      exact .inl ⟨x, s', _, hsees⟩
    | error f => exact .inr ⟨f, _, _, (h.look_fails heq hv.endless hn).2⟩

theorem sees_of_gives {e : Nat} (h : Trails pre ext s t) (hv : InView s t d)
    (hg : Gives (TokenSource.look d) s (x, e) s') : ∃ t', Sees pre d x s t s' t' := by
  rcases h.looks hv with ⟨y, u, t', hsees⟩ | ⟨f, u, t', hbreaks⟩
  · obtain ⟨heq, rfl⟩ := hsees.left.unique hg
    cases heq
    exact ⟨t', hsees⟩
  · exact nomatch hg.symm.trans hbreaks.left

/-- Behind a token that is not the end both may look again. -/
theorem Sees.inView_succ (h : Sees pre d x s t s' t') (hs : Trails pre ext s t)
    (hv : InView s t d) (hx : x.kind ≠ .eof) : InView s' t' (d + 1) where
  le := by
    rw [h.index', ← Nat.add_assoc]
    exact (List.getElem?_eq_some_iff.mp h.kept').1
  endless := by
    obtain ⟨r, hr⟩ := h.keeps
    have htake : s'.tokens.take (s.index + d) = s.tokens.take (s.index + d) := by
      rw [← hr, List.take_append_of_le_length (hs.place_le hv.le)]
    rw [h.index, ← Nat.add_assoc, List.take_add_one, h.kept, htake]
    exact endless_concat hv.endless hx

/-- The next token has been kept when it is seen, so it is seen again. -/
theorem facing_of_kept (h : p.tokens[p.index]? = some x) : Facing p x :=
  ⟨_, p, gives_look_kept h⟩

theorem again {e : Nat} (h : Trails pre ext s t)
    (hx : Gives (TokenSource.look (TokenSource.here s)) s (x, e) s') : Facing s' x := by
  obtain ⟨t', hsees⟩ := h.sees_of_gives h.inView hx
  exact facing_of_kept (hsees.index ▸ hsees.kept)

/-- Looking farther leaves the next token where it is. -/
theorem stays {y : Token} {e : Nat} (h : Trails pre ext s t) (hv : InView s t d)
    (hx : Facing s x) (hy : Gives (TokenSource.look d) s (y, e) s') : Facing s' x := by
  obtain ⟨t', hsees⟩ := h.sees_of_gives hv hy
  refine facing_of_kept ?_
  rw [hsees.index]
  rcases Nat.lt_or_eq_of_le h.index_le with hlt | heq
  · -- the next token has been kept, and what is kept stays
    obtain ⟨z, -, hz⟩ := h.look_kept (d := 0) hlt
    rw [Nat.add_zero] at hz
    obtain rfl : z = x := hx.unique (facing_of_kept hz)
    obtain ⟨r, hr⟩ := hsees.keeps
    rw [← hr, List.getElem?_append_left (List.getElem?_eq_some_iff.mp hz).1]
    exact hz
  · -- it is the next token that is looked at
    obtain rfl : d = 0 := by
      have hle := hv.le
      omega
    obtain rfl : y = x := hx.unique ⟨_, _, hy⟩
    exact hsees.kept

/-- Both take the token that comes next. -/
theorem take (h : Trails pre ext s t) (hs : s.tokens[s.index]? = some x)
    (ht : t.tokens[t.index]? = some x) (hx : x.kind ≠ .eof) :
    Trails pre ext { s with index := s.index + 1 } { t with index := t.index + 1 } where
  tokens := h.tokens
  index := congrArg (· + 1) h.index
  gives := h.gives
  endless := by
    show Endless (s.tokens.take (s.index + 1))
    rw [List.take_add_one, hs]
    exact endless_concat h.endless hx
  index_le := (List.getElem?_eq_some_iff.mp ht).1

/-- The last token taken ends where it does, seen from either. -/
theorem endOffset_eq (h : Trails pre ext s t) (ht : t.index ≠ 0) : s.endOffset = t.endOffset := by
  obtain ⟨i, x, hi, hx⟩ := exists_last ht h.index_le
  have hs : s.index = pre.length + i + 1 := h.index.trans (by rw [hi]; rfl)
  have hget : s.tokens[pre.length + i]? = some x := by
    rw [h.tokens, List.append_assoc, List.getElem?_append_right (Nat.le_add_right _ _),
      Nat.add_sub_cancel_left, List.getElem?_append_left (List.getElem?_eq_some_iff.mp hx).1, hx]
  rw [endOffset_of_kept hs hget, endOffset_of_kept hi hx]

/-- Looking leaves the last token taken where it is. -/
theorem Sees.endOffset_eq (h : Sees pre d x s t s' t') (hs : Trails pre ext s t)
    (hindex : s.index ≠ 0) : s'.endOffset = s.endOffset := by
  obtain ⟨i, y, hi, hy⟩ := exists_last hindex (hs.place_le (d := 0) hs.index_le)
  obtain ⟨r, hr⟩ := h.keeps
  have hy' : s'.tokens[i]? = some y := by
    rw [← hr, List.getElem?_append_left (List.getElem?_eq_some_iff.mp hy).1, hy]
  rw [endOffset_of_kept (h.index.trans hi) hy', endOffset_of_kept hi hy]

end Trails

end Parser

end SpanScript
