import Mathlib.Data.List.Forall2
import SpanScript.Proofs.Syntax.Relocate
import SpanScript.Proofs.Syntax.Run

/-!
# Two sources that are read in step

What reads statements is written for any source of tokens, so two sources are read alike
as soon as the few steps that a source offers are alike: looking at a place, going on
behind it, and taking the token there.  A `Lockstep` is a relation between the states of
two sources that these steps keep, with `f` and `g` bringing the places of the two texts
together.  `Agree L p A m n` says that from level states `m` and `n` both give answers,
related by `A`, and stand level again, or both come to faults that are alike; if `p`, a
token is taken when they give answers.  Of readers that take one this holds for every `p`.

The end is looked at but never taken, so nothing is asked of a source behind it.

* `Agree.bind`, `Agree.andThen` and the lemmas beside them: the steps that readers are
  made of.
* `agree_many`, `agree_commaList`: repetitions.
* `Cursor.Bisimulates.lockstep`: cursors at which the same tokens come, in whatever texts
  and at whatever places.
-/

namespace SpanScript

/-- Tokens of the same kind and text, at places that `f` and `g` bring together. -/
structure Token.Alike (f g : Location → Location) (t u : Token) : Prop where
  kind : t.kind = u.kind
  text : t.text = u.text
  location : f t.location = g u.location

/-- Two things have the same image. -/
def Same {α β γ : Type} (p : α → γ) (q : β → γ) (a : α) (b : β) : Prop := p a = q b

theorem forall₂_same_iff {α β γ : Type} {p : α → γ} {q : β → γ} {as : List α} {bs : List β} :
    List.Forall₂ (Same p q) as bs ↔ as.map p = bs.map q := by
  rw [← List.forall₂_eq_eq_eq, List.forall₂_map_left_iff, List.forall₂_map_right_iff]
  rfl

namespace Reader

/-- The token `t` comes next. -/
def Facing {ε π σ : Type} [TokenSource ε π σ] (s : σ) (t : Token) : Prop :=
  ∃ p s', Gives (TokenSource.look (TokenSource.here s)) s (t, p) s'

/-- A relation between two sources that the steps of reading keep.  `Level` relates their
states and, while they stand so, `Beside` their places; `Halted` relates the states that
faults leave, and `Fair` is known of every token that comes.  What has been taken is
counted by `taken`, which only ever grows. -/
structure Lockstep (f g : Location → Location) (σ τ : Type) {ε ε' π ρ : Type}
    [TokenSource ε π σ] [TokenSource ε' ρ τ] where
  Level : σ → τ → Prop
  Beside : σ → τ → π → ρ → Prop
  Halted : σ → τ → Prop
  SameFault : ε → ε' → Prop
  Fair : Token → Prop
  taken : σ → Nat
  halted {s t} : Level s t → Halted s t
  fault {x y : ParseFault} : x.relocate f = y.relocate g →
    SameFault (TokenSource.fault σ x) (TokenSource.fault τ y)
  integer {t : Token} : Fair t → t.kind = .number →
    (∃ v, TokenSource.integer σ t.text = .ok v ∧ TokenSource.integer τ t.text = .ok v) ∨
    ∃ x y, TokenSource.integer σ t.text = .error x ∧ TokenSource.integer τ t.text = .error y ∧
      SameFault x y
  bound {s t} : Level s t → TokenSource.bound s = TokenSource.bound t
  here {s t} : Level s t → Beside s t (TokenSource.here s) (TokenSource.here t)
  look {s t p q} : Level s t → Beside s t p q →
    (∃ x p' s' y q' t', Gives (TokenSource.look p) s (x, p') s' ∧
      Gives (TokenSource.look q) t (y, q') t' ∧ x.Alike f g y ∧ Fair x ∧ Level s' t' ∧
      taken s' = taken s ∧ (x.kind ≠ .eof → Beside s' t' p' q')) ∨
    ∃ x s' y t', Fails (TokenSource.look p) s x s' ∧ Fails (TokenSource.look q) t y t' ∧
      SameFault x y ∧ Halted s' t'
  again {s t s' x p} : Level s t → Gives (TokenSource.look (TokenSource.here s)) s (x, p) s' →
    Facing s' x
  stays {s t p q s' x y p'} : Level s t → Beside s t p q → Facing s x →
    Gives (TokenSource.look p) s (y, p') s' → Facing s' x
  take {s t x p s' y q t'} : Level s t →
    Gives (TokenSource.look (TokenSource.here s)) s (x, p) s' →
    Gives (TokenSource.look (TokenSource.here t)) t (y, q) t' → x.kind ≠ .eof →
    Level (TokenSource.moveTo p s') (TokenSource.moveTo q t') ∧
      taken s < taken (TokenSource.moveTo p s')

theorem Facing.unique {ε π σ : Type} [TokenSource ε π σ] {s : σ} {t u : Token} (h : Facing s t)
    (h' : Facing s u) : u = t := by
  obtain ⟨_, _, h⟩ := h
  obtain ⟨_, _, h'⟩ := h'
  exact congrArg Prod.fst (h'.unique h).1

variable {ε ε' π ρ σ τ : Type} [TokenSource ε π σ] [TokenSource ε' ρ τ] {f g : Location → Location}
  {L : Lockstep f g σ τ} {α β γ δ : Type} {A : α → β → Prop} {B : γ → δ → Prop} {p q : Prop}
  {s : σ} {t : τ}

/-- Both readers give answers, related by `A`, and stand level, or both come to faults
that are alike; if `p`, a token is taken when they give answers. -/
def AgreeAt (L : Lockstep f g σ τ) (p : Prop) (A : α → β → Prop) (m : ReaderOf ε σ α)
    (n : ReaderOf ε' τ β) (s : σ) (t : τ) : Prop :=
  (∃ a s' b t', Gives m s a s' ∧ Gives n t b t' ∧ A a b ∧ L.Level s' t' ∧
    L.taken s ≤ L.taken s' ∧ (p → L.taken s < L.taken s')) ∨
  ∃ x s' y t', Fails m s x s' ∧ Fails n t y t' ∧ L.SameFault x y ∧ L.Halted s' t'

/-- The readers agree from all states that are level. -/
def Agree (L : Lockstep f g σ τ) (p : Prop) (A : α → β → Prop) (m : ReaderOf ε σ α)
    (n : ReaderOf ε' τ β) : Prop := ∀ ⦃s t⦄, L.Level s t → AgreeAt L p A m n s t

/-! ## Steps -/

theorem agree_pure {a : α} {b : β} (h : A a b) : Agree L False A (pure a) (pure b) :=
  fun _ _ hs => .inl ⟨_, _, _, _, rfl, rfl, h, hs, Nat.le_refl _, False.elim⟩

theorem agree_throw {x : ε} {y : ε'} (h : L.SameFault x y) : Agree L p A (throw x) (throw y) :=
  fun _ _ hs => .inr ⟨_, _, _, _, rfl, rfl, h, L.halted hs⟩

theorem agree_fail {problem : SyntaxProblem} {loc loc' : Location} (h : f loc = g loc') :
    Agree L p A (fail problem loc) (fail problem loc') := by
  have hx : (ParseFault.located problem loc).relocate f
      = (ParseFault.located problem loc').relocate g := congrArg (ParseFault.located problem) h
  exact agree_throw (L.fault hx)

/-- Of two readers one after the other, the first takes a token or the second does. -/
theorem AgreeAt.bind_or {m : ReaderOf ε σ α} {n : ReaderOf ε' τ β} {k : α → ReaderOf ε σ γ}
    {l : β → ReaderOf ε' τ δ} (h : AgreeAt L p A m n s t)
    (h' : ∀ {a b}, A a b → Agree L q B (k a) (l b)) :
    AgreeAt L (p ∨ q) B (m >>= k) (n >>= l) s t := by
  rcases h with ⟨a, s₁, b, t₁, hm, hn, hab, h₁, hle, hlt⟩ | ⟨x, s₁, y, t₁, hm, hn, hxy⟩
  · rcases h' hab h₁ with ⟨c, s₂, d, t₂, hk, hl, hcd, h₂, hle', hlt'⟩ |
      ⟨x, s₂, y, t₂, hk, hl, hxy⟩
    · refine .inl ⟨c, s₂, d, t₂, hm.bind hk, hn.bind hl, hcd, h₂, hle.trans hle', ?_⟩
      rintro (hp | hq)
      · exact (hlt hp).trans_le hle'
      · exact hle.trans_lt (hlt' hq)
    · exact .inr ⟨x, s₂, y, t₂, hm.bind_fails hk, hn.bind_fails hl, hxy⟩
  · exact .inr ⟨x, s₁, y, t₁, hm.bind k, hn.bind l, hxy⟩

theorem AgreeAt.imp {m : ReaderOf ε σ α} {n : ReaderOf ε' τ β} (h : AgreeAt L p A m n s t)
    (hpq : q → p) : AgreeAt L q A m n s t := by
  rcases h with ⟨a, s', b, t', hm, hn, hab, h', hle, hlt⟩ | h
  · exact .inl ⟨a, s', b, t', hm, hn, hab, h', hle, fun hq => hlt (hpq hq)⟩
  · exact .inr h

theorem AgreeAt.bind {m : ReaderOf ε σ α} {n : ReaderOf ε' τ β} {k : α → ReaderOf ε σ γ}
    {l : β → ReaderOf ε' τ δ} (h : AgreeAt L p A m n s t)
    (h' : ∀ {a b}, A a b → Agree L False B (k a) (l b)) :
    AgreeAt L p B (m >>= k) (n >>= l) s t := (h.bind_or h').imp .inl

theorem AgreeAt.andThen {m : ReaderOf ε σ α} {n : ReaderOf ε' τ β} {k : α → ReaderOf ε σ γ}
    {l : β → ReaderOf ε' τ δ} (h : AgreeAt L False A m n s t)
    (h' : ∀ {a b}, A a b → Agree L p B (k a) (l b)) :
    AgreeAt L p B (m >>= k) (n >>= l) s t := (h.bind_or h').imp .inr

/-- The first of two readers takes a token. -/
theorem Agree.bind {m : ReaderOf ε σ α} {n : ReaderOf ε' τ β} {k : α → ReaderOf ε σ γ}
    {l : β → ReaderOf ε' τ δ} (h : Agree L p A m n)
    (h' : ∀ {a b}, A a b → Agree L False B (k a) (l b)) : Agree L p B (m >>= k) (n >>= l) :=
  fun _ _ hs => (h hs).bind h'

/-- The second of two readers takes a token. -/
theorem Agree.andThen {m : ReaderOf ε σ α} {n : ReaderOf ε' τ β} {k : α → ReaderOf ε σ γ}
    {l : β → ReaderOf ε' τ δ} (h : Agree L False A m n)
    (h' : ∀ {a b}, A a b → Agree L p B (k a) (l b)) : Agree L p B (m >>= k) (n >>= l) :=
  fun _ _ hs => (h hs).andThen h'

/-- What is answered last is made of what has been read. -/
theorem Agree.map {m : ReaderOf ε σ α} {n : ReaderOf ε' τ β} {k : α → γ} {l : β → δ}
    (h : Agree L p A m n) (h' : ∀ {a b}, A a b → B (k a) (l b)) :
    Agree L p B (m >>= fun a => pure (k a)) (n >>= fun b => pure (l b)) :=
  h.bind fun hab => agree_pure (h' hab)

theorem agree_get {k : σ → ReaderOf ε σ α} {l : τ → ReaderOf ε' τ β}
    (h : ∀ {s t}, L.Level s t → AgreeAt L p A (k s) (l t) s t) :
    Agree L p A (get >>= k) (get >>= l) := fun _ _ hs => h hs

/-- A choice that both readers make alike. -/
theorem agree_ite {c c' : Prop} [Decidable c] [Decidable c'] {m m' : ReaderOf ε σ α}
    {n n' : ReaderOf ε' τ β} (hc : c ↔ c') (h : Agree L p A m n) (h' : Agree L p A m' n') :
    Agree L p A (if c then m else m') (if c' then n else n') := by
  by_cases hx : c
  · rw [if_pos hx, if_pos (hc.mp hx)]
    exact h
  · rw [if_neg hx, if_neg fun hx' => hx (hc.mpr hx')]
    exact h'

/-! ## Looking and taking -/

/-- Places are beside each other, the states being level. -/
structure Lockstep.AreBeside (L : Lockstep f g σ τ) (s : σ) (t : τ) (a : π) (b : ρ) :
    Prop where
  level : L.Level s t
  beside : L.Beside s t a b

theorem Lockstep.areBeside_here (h : L.Level s t) :
    L.AreBeside s t (TokenSource.here s) (TokenSource.here t) := ⟨h, L.here h⟩

/-- To look at places and go on, while the places behind them are beside each other. -/
theorem agreeAt_look_bind {a : π} {b : ρ} (h : L.AreBeside s t a b) {k : Token × π → ReaderOf ε σ α}
    {l : Token × ρ → ReaderOf ε' τ β}
    (h' : ∀ {x y a' b' s' t'}, x.Alike f g y → L.Fair x →
      Gives (TokenSource.look a) s (x, a') s' → Gives (TokenSource.look b) t (y, b') t' →
      L.Level s' t' → (x.kind ≠ .eof → L.AreBeside s' t' a' b') →
      AgreeAt L p A (k (x, a')) (l (y, b')) s' t') :
    AgreeAt L p A (TokenSource.look a >>= k) (TokenSource.look b >>= l) s t := by
  rcases L.look h.level h.beside with
    ⟨x, a', s', y, b', t', hs, ht, hxy, hfair, hlevel, htaken, hbeside⟩ |
      ⟨x, s', y, t', hs, ht, hxy⟩
  · rcases h' hxy hfair hs ht hlevel fun hx => ⟨hlevel, hbeside hx⟩ with
      ⟨c, s₂, d, t₂, hk, hl, hcd, h₂, hle, hlt⟩ | ⟨x, s₂, y, t₂, hk, hl, hxy⟩
    · rw [htaken] at hle hlt
      exact .inl ⟨c, s₂, d, t₂, hs.bind hk, ht.bind hl, hcd, h₂, hle, hlt⟩
    · exact .inr ⟨x, s₂, y, t₂, hs.bind_fails hk, ht.bind_fails hl, hxy⟩
  · exact .inr ⟨x, s', y, t', hs.bind k, ht.bind l, hxy⟩

/-- To look at the next tokens and go on, while they come next. -/
theorem agree_peek_bind {k : Token → ReaderOf ε σ α} {l : Token → ReaderOf ε' τ β}
    (h : ∀ {x y}, x.Alike f g y → L.Fair x → ∀ {s t}, L.Level s t → Facing s x →
      AgreeAt L p A (k x) (l y) s t) :
    Agree L p A (peek >>= k) (peek >>= l) := by
  simp only [peek, bind_assoc, pure_bind]
  refine agree_get fun {s t} hs => agreeAt_look_bind (L.areBeside_here hs) ?_
  intro x y _ _ s' t' hxy hfair hx _ h' _
  exact h hxy hfair h' (L.again hs hx)

theorem agree_peek : Agree L False (fun t u => t.Alike f g u) (peek : ReaderOf ε σ Token)
    (peek : ReaderOf ε' τ Token) := by
  refine agree_get fun {s t} hs => agreeAt_look_bind (L.areBeside_here hs) ?_
  exact fun hxy _ _ _ h' _ => agree_pure hxy h'

/-- To look at the second next tokens and go on, while the same tokens come next. -/
theorem agreeAt_peekSecond_bind {k : Token → ReaderOf ε σ α} {l : Token → ReaderOf ε' τ β}
    {x : Token} (hs : L.Level s t) (hx : Facing s x) (he : x.kind ≠ .eof)
    (h : ∀ {y z}, y.Alike f g z → ∀ {s t}, L.Level s t → Facing s x →
      AgreeAt L p A (k y) (l z) s t) :
    AgreeAt L p A (peekSecond >>= k) (peekSecond >>= l) s t := by
  simp only [peekSecond, bind_assoc]
  refine agreeAt_look_bind (L.areBeside_here hs) ?_
  intro y z a b s₁ t₁ hyz _ hy _ h₁ hbeside
  obtain rfl : y = x := hx.unique ⟨_, _, hy⟩
  simp only [if_neg he, if_neg (hyz.kind ▸ he), bind_assoc, pure_bind]
  have hx₁ := L.again hs hy
  refine agreeAt_look_bind (hbeside he) fun hzw _ hz _ h₂ _ => ?_
  exact h hzw h₂ (L.stays h₁ (hbeside he).beside hx₁ hz)

theorem agree_sees (k : TokenKind) :
    Agree L False Eq (sees k : ReaderOf ε σ Bool) (sees k : ReaderOf ε' τ Bool) :=
  agree_peek.map fun h => by rw [h.kind]

/-- The next tokens are taken, if they are not the end. -/
theorem agreeAt_take {x : Token} (hs : L.Level s t) (hx : Facing s x) (he : x.kind ≠ .eof) :
    AgreeAt L p (fun t u => t.Alike f g u) (take : ReaderOf ε σ Token)
      (take : ReaderOf ε' τ Token) s t := by
  obtain ⟨a, s₁, hx⟩ := hx
  rcases L.look hs (L.here hs) with ⟨y, b, s', z, c, t', hy, hz, hyz, -⟩ | ⟨y, s', z, t', hy, -⟩
  · obtain ⟨heq, rfl⟩ := hx.unique hy
    cases heq
    obtain ⟨hlevel, hlt⟩ := L.take hs hx hz he
    exact .inl ⟨_, _, _, _, hx.bind rfl, hz.bind rfl, hyz, hlevel, hlt.le, fun _ => hlt⟩
  · rw [Fails, hx] at hy
    cases hy

theorem agree_accept {k : TokenKind} (hk : k ≠ .eof) :
    Agree L False Eq (accept k : ReaderOf ε σ Bool) (accept k : ReaderOf ε' τ Bool) := by
  simp only [accept, sees, bind_assoc, pure_bind]
  refine agree_peek_bind fun {x y} hxy _ s t hs hx => ?_
  rw [← hxy.kind]
  split
  · next e =>
    have he := eq_of_beq e
    exact (agreeAt_take hs hx (he ▸ hk)).bind fun _ => agree_pure rfl
  · exact agree_pure rfl hs

theorem agree_expect {k : TokenKind} (hk : k ≠ .eof) :
    Agree L p (fun t u => t.Alike f g u) (expect k : ReaderOf ε σ Token)
      (expect k : ReaderOf ε' τ Token) := by
  refine agree_peek_bind fun {x y} hxy _ s t hs hx => ?_
  rw [← hxy.kind]
  split
  · next he => exact agreeAt_take hs hx (he ▸ hk)
  · exact agree_fail hxy.location hs

/-! ## Repetitions -/

theorem agree_many {m : ReaderOf ε σ (Option α)} {n : ReaderOf ε' τ (Option β)}
    (h : Agree L False (Option.Rel A) m n) :
    Agree L False (List.Forall₂ A) (many m) (many n) := by
  have within : ∀ fuel, Agree L False (List.Forall₂ A) (repeatWithin m fuel)
      (repeatWithin n fuel) := by
    intro fuel
    induction fuel with
    | zero => exact agree_pure .nil
    | succ fuel ih =>
      refine h.bind fun hab => ?_
      cases hab with
      | none => exact agree_pure .nil
      | some hab => exact ih.map fun hs => .cons hab hs
  refine agree_get fun {s t} hs => ?_
  rw [L.bound hs]
  exact within _ hs

theorem agree_after {k : TokenKind} (hk : k ≠ .eof) {m : ReaderOf ε σ α} {n : ReaderOf ε' τ β}
    (h : Agree L False A m n) : Agree L False (Option.Rel A) (after k m) (after k n) := by
  refine (agree_accept hk).bind fun hb => agree_ite (by rw [hb]) ?_ (agree_pure .none)
  exact h.map fun hab => .some hab

theorem agree_commaList {k : TokenKind} (hk : k ≠ .eof) {m : ReaderOf ε σ α}
    {n : ReaderOf ε' τ β} (h : Agree L False A m n) :
    Agree L False (List.Forall₂ A) (commaList k m) (commaList k n) := by
  refine (agree_accept hk).bind fun hb => agree_ite (by rw [hb]) (agree_pure .nil) ?_
  refine h.bind fun hab => (agree_many (agree_after (by decide) h)).bind fun hs => ?_
  exact (agree_expect hk).map fun _ => .cons hab hs

theorem agree_dropNewlines :
    Agree L False Eq (dropNewlines : ReaderOf ε σ Unit) (dropNewlines : ReaderOf ε' τ Unit) := by
  exact (agree_many (agree_after (by decide) (agree_pure (A := Eq) rfl))).map fun _ => rfl

theorem agree_typeName (types : List TypeName) :
    Agree L p Eq (typeName types : ReaderOf ε σ TypeName)
      (typeName types : ReaderOf ε' τ TypeName) := by
  refine (agree_expect (by decide)).bind fun {t u} h => ?_
  refine agree_ite (by rw [h.text]) (agree_pure h.text) ?_
  rw [h.text]
  exact agree_fail h.location

end Reader

/-! ## Cursors -/

namespace Cursor

/-- At related cursors there are tokens that are alike, with related cursors behind
them, or there is the same problem. -/
structure Bisimulates (f g : Location → Location) (R : Cursor → Cursor → Prop) : Prop where
  token : ∀ {c d c' : Cursor} {t : Token}, R c d → c.next = .ok (t, c') →
    ∃ u d', d.next = .ok (u, d') ∧ t.Alike f g u ∧ R c' d'
  fault : ∀ {c d : Cursor} {x : LexFault}, R c d → c.next = .error x →
    ∃ y, d.next = .error y ∧ x.problem = y.problem ∧ f x.location = g y.location

/-- A token leaves the cursor farther on, if it is not the end. -/
theorem offset_lt_of_next {c d : Cursor} {t : Token} (h : c.next = .ok (t, d))
    (ht : t.kind ≠ .eof) : c.offset < d.offset := by
  obtain ⟨p, hp, ho, -, -⟩ := (Reads.single h ht).exists_bytes
  have hlt := (length_of_next h).2 ht
  rw [hp, List.length_append] at hlt
  omega

end Cursor

namespace Reader

variable {R : Cursor → Cursor → Prop} {f g : Location → Location}

/-- What is said of an integer literal has no place. -/
theorem relocate_of_integer {text : String} {x : ParseFault} (h : Reader.integer text = .error x)
    (f : Location → Location) : x.relocate f = x := by
  unfold Reader.integer at h
  dsimp only at h
  split at h
  · cases h
    rfl
  · cases h

/-- Two readers stand at related cursors. -/
structure Related (R : Cursor → Cursor → Prop) (s t : ReadState) : Prop where
  cursor : R s.cursor t.cursor
  taken : s.taken = t.taken
  bound : s.bound = t.bound

/-- Cursors at which the same tokens come are read in step. -/
def Lockstep.ofCursors (hR : Cursor.Bisimulates f g R) : Lockstep f g ReadState ReadState where
  Level := Related R
  Beside _ _ := R
  Halted _ _ := True
  SameFault x y := x.relocate f = y.relocate g
  Fair _ := True
  taken s := s.cursor.offset
  halted _ := trivial
  fault h := h
  integer {t} _ _ := by
    cases h : Reader.integer t.text with
    | ok v => exact .inl ⟨v, h, h⟩
    | error x =>
      refine .inr ⟨x, x, h, h, ?_⟩
      rw [relocate_of_integer h, relocate_of_integer h]
  bound h := h.bound
  here h := h.cursor
  look := by
    intro s t c d hs h
    cases hc : c.next with
    | ok x =>
      obtain ⟨u, d', hd, hu, hR'⟩ := hR.token h hc
      exact .inl ⟨_, _, _, _, _, _, gives_look.mpr ⟨hc, rfl⟩, gives_look.mpr ⟨hd, rfl⟩, hu,
        trivial, ⟨hs.cursor, hs.taken, hs.bound⟩, rfl, fun _ => hR'⟩
    | error x =>
      obtain ⟨y, hd, hp, hl⟩ := hR.fault h hc
      refine .inr ⟨_, _, _, _, look_fails hc s, look_fails hd t, ?_, trivial⟩
      rw [faultOf, faultOf, ParseFault.relocate, ParseFault.relocate, hp, hl]
  again := by
    intro s t s' x c _ hx
    obtain ⟨hn, rfl⟩ := gives_look.mp hx
    exact ⟨_, _, gives_look.mpr ⟨hn, rfl⟩⟩
  stays := by
    intro s t c d s' x y c' _ _ hx hy
    obtain ⟨-, rfl⟩ := gives_look.mp hy
    obtain ⟨_, _, hx⟩ := hx
    exact ⟨_, _, gives_look.mpr ⟨(gives_look.mp hx).1, rfl⟩⟩
  take := by
    intro s t x c s' y d t' hs hx hy he
    obtain ⟨hn, rfl⟩ := gives_look.mp hx
    obtain ⟨hn', rfl⟩ := gives_look.mp hy
    obtain ⟨u, d', hd, -, hR'⟩ := hR.token hs.cursor hn
    cases hd.symm.trans hn'
    exact ⟨⟨hR', rfl, hs.bound⟩, Cursor.offset_lt_of_next hn he⟩

end Reader

end SpanScript
