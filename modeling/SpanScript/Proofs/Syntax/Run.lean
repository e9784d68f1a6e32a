import SpanScript.Syntax.Statement
import SpanScript.Proofs.Token.Reading

/-!
# What a reader does

A reader is told by the tokens it takes: `Consumes s τ s'` says that they are
`τ`.  How far a reader has looked is left out, for nothing that a statement is
depends on it.

* `Gives`, `Fails`: the two ways a reader ends, with their equations for the
  steps that readers are made of.
* `Arrives P m s τ a`: from `s` on `m` takes `τ` and gives `a`, unless it fails
  for a reason `P` that a token of `τ` has.  There is one lemma for each step,
  in the form in which they are chained.
* `many_induction`, `Arrives.many_turn`: repetitions, whose bound is never
  reached when each turn takes a token.
-/

namespace SpanScript

def Cursor.Faces (c : Cursor) (t : Token) : Prop := ∃ d, c.next = .ok (t, d)

theorem Cursor.Faces.unique {c : Cursor} {t u : Token} (h : c.Faces t) (h' : c.Faces u) :
    t = u := by
  obtain ⟨d, h⟩ := h
  obtain ⟨e, h'⟩ := h'
  rw [h] at h'
  cases h'
  rfl

theorem Cursor.Reads.faces {c e : Cursor} {t : Token} {τ : List Token}
    (h : c.Reads (t :: τ) e) : c.Faces t := by
  cases h with
  | cons hn _ _ => exact ⟨_, hn⟩

theorem Cursor.Reads.kind_ne_eof {c e : Cursor} {t : Token} {τ : List Token}
    (h : c.Reads (t :: τ) e) : t.kind ≠ .eof := by
  cases h with
  | cons _ ht _ => exact ht

theorem Cursor.Reads.exists_next {c e : Cursor} {t : Token} {τ : List Token}
    (h : c.Reads (t :: τ) e) : ∃ d, c.next = .ok (t, d) ∧ t.kind ≠ .eof ∧ d.Reads τ e := by
  cases h with
  | cons hn ht hr => exact ⟨_, hn, ht, hr⟩

/-- A token leaves no more bytes behind it than there were, and fewer if it is not the
end. -/
theorem Cursor.length_of_next {c d : Cursor} {t : Token} (h : c.next = .ok (t, d)) :
    d.rest.length ≤ c.rest.length ∧ (t.kind ≠ .eof → d.rest.length < c.rest.length) := by
  refine ⟨?_, fun ht => ?_⟩
  · unfold Cursor.next at h
    dsimp only at h
    split at h
    · cases h
      simp only [move, List.length_drop]
      omega
    · cases h
  · have := (Reads.single h ht).length_le
    simp only [List.length_cons, List.length_nil] at this
    omega

/-- A token that is walked over ends before the walk does. -/
theorem Cursor.Reads.stop_le {c e : Cursor} {t : Token} {τ : List Token}
    (h : c.Reads (t :: τ) e) : t.stop ≤ e.offset := by
  obtain ⟨d, hn, ht, hr⟩ := h.exists_next
  obtain ⟨g, b, q, hl⟩ := exists_lies_of_next hn ht
  obtain ⟨p, -, ho, -, -⟩ := hr.exists_bytes
  rw [hl.stop, ho]
  exact Nat.le_add_right _ _

namespace Reader

variable {ε σ α β : Type}

def Gives (m : ReaderOf ε σ α) (s : σ) (a : α) (s' : σ) : Prop := m.run.run s = (.ok a, s')

def Fails (m : ReaderOf ε σ α) (s : σ) (f : ε) (s' : σ) : Prop := m.run.run s = (.error f, s')

theorem Gives.unique {m : ReaderOf ε σ α} {s s' s'' : σ} {a b : α} (h : Gives m s a s')
    (h' : Gives m s b s'') : a = b ∧ s' = s'' := by
  rw [Gives, h] at h'
  cases h'
  exact ⟨rfl, rfl⟩

theorem run_bind (m : ReaderOf ε σ α) (k : α → ReaderOf ε σ β) (s : σ) :
    (m >>= k).run.run s = match m.run.run s with
      | (.ok a, s₁) => (k a).run.run s₁
      | (.error f, s₁) => (.error f, s₁) := by
  show (ExceptT.bind m k).run.run s = _
  simp only [ExceptT.bind, ExceptT.run, ExceptT.mk, StateT.run]
  show (match m s with | (a, s₁) => ExceptT.bindCont k a s₁) = _
  rcases m s with ⟨_ | a, s₁⟩ <;> rfl

theorem gives_bind {m : ReaderOf ε σ α} {k : α → ReaderOf ε σ β} {s s' : σ} {b : β} :
    Gives (m >>= k) s b s' ↔ ∃ a s₁, Gives m s a s₁ ∧ Gives (k a) s₁ b s' := by
  unfold Gives
  rw [run_bind]
  constructor
  · intro h
    rcases hm : m.run.run s with ⟨f | a, s₁⟩
    · rw [hm] at h
      cases h
    · rw [hm] at h
      exact ⟨a, s₁, rfl, h⟩
  · rintro ⟨a, s₁, h1, h2⟩
    rw [h1]
    exact h2

theorem Gives.bind {m : ReaderOf ε σ α} {k : α → ReaderOf ε σ β} {s s₁ s' : σ} {a : α} {b : β}
    (h : Gives m s a s₁) (h' : Gives (k a) s₁ b s') : Gives (m >>= k) s b s' :=
  gives_bind.mpr ⟨a, s₁, h, h'⟩

theorem Gives.bind_fails {m : ReaderOf ε σ α} {k : α → ReaderOf ε σ β} {s s₁ s' : σ} {a : α}
    {f : ε} (h : Gives m s a s₁) (h' : Fails (k a) s₁ f s') : Fails (m >>= k) s f s' := by
  unfold Fails
  rw [run_bind, h]
  exact h'

theorem Fails.bind {m : ReaderOf ε σ α} {s s' : σ} {f : ε} (h : Fails m s f s')
    (k : α → ReaderOf ε σ β) : Fails (m >>= k) s f s' := by
  unfold Fails
  rw [run_bind, h]

theorem gives_pure {a b : α} {s s' : σ} :
    Gives (pure a : ReaderOf ε σ α) s b s' ↔ b = a ∧ s' = s := by
  constructor
  · intro h
    cases h
    exact ⟨rfl, rfl⟩
  · rintro ⟨rfl, rfl⟩
    rfl

theorem not_gives_fail {problem : SyntaxProblem} {loc : Location} {a : α} {s s' : ReadState} :
    ¬ Gives (fail problem loc) s a s' := fun h => nomatch h

theorem not_gives_throw {f : ParseFault} {a : α} {s s' : ReadState} :
    ¬ Gives (throw f : Reader α) s a s' := fun h => nomatch h

theorem fails_throw (f : ParseFault) (s : ReadState) : Fails (throw f : Reader α) s f s := rfl

/-! ## What is taken -/

/-- The tokens `τ` are taken between two states. -/
structure Consumes (s : ReadState) (τ : List Token) (s' : ReadState) : Prop where
  reads : s.cursor.Reads τ s'.cursor
  bound : s'.bound = s.bound
  taken : s'.taken = (s.taken || !τ.isEmpty)

/-- The bound is above the number of tokens that are left. -/
def Ready (s : ReadState) : Prop := s.cursor.rest.length < s.bound

namespace Consumes

variable {s s₁ s₂ : ReadState} {τ σ : List Token}

theorem refl (s : ReadState) : Consumes s [] s := ⟨.nil, rfl, by simp⟩

theorem trans (h : Consumes s τ s₁) (h' : Consumes s₁ σ s₂) : Consumes s (τ ++ σ) s₂ where
  reads := h.reads.append h'.reads
  bound := h'.bound.trans h.bound
  taken := by rw [h'.taken, h.taken]; cases τ <;> simp

theorem cursor_eq (h : Consumes s [] s₁) : s₁.cursor = s.cursor := h.reads.unique .nil

theorem faces (h : Consumes s [] s₁) {t : Token} (ht : s.cursor.Faces t) : s₁.cursor.Faces t := by
  rw [h.cursor_eq]
  exact ht

theorem ready (h : Consumes s τ s₁) (hs : Ready s) : Ready s₁ := by
  have := h.reads.length_le
  unfold Ready at hs ⊢
  rw [h.bound]
  omega

theorem length_lt (h : Consumes s τ s₁) (hτ : τ ≠ []) :
    s₁.cursor.rest.length < s.cursor.rest.length := by
  have h1 := h.reads.length_le
  have h2 := List.length_pos_iff.mpr hτ
  omega

end Consumes

/-! ## Looking and taking -/

theorem gives_look {c : Cursor} {s s' : ReadState} {x : Token × Cursor} :
    Gives (look c) s x s' ↔ c.next = .ok x ∧ s' = { s with reach := max s.reach x.1.stop } := by
  unfold look
  cases c.next with
  | error f => exact ⟨fun h => (nomatch h), fun h => (nomatch h.1)⟩
  | ok y =>
    obtain ⟨t, d⟩ := y
    constructor
    · intro h
      cases h
      exact ⟨rfl, rfl⟩
    · rintro ⟨h, rfl⟩
      cases h
      rfl

theorem run_look {c d : Cursor} {t : Token} (h : c.next = .ok (t, d)) (s : ReadState) :
    (TokenSource.look c : Reader (Token × Cursor)).run.run s =
      (.ok (t, d), { s with reach := max s.reach t.stop }) :=
  gives_look.mpr ⟨h, rfl⟩

/-- The fault that a token gives that cannot be read. -/
def faultOf (x : LexFault) : ParseFault := .located (.lexical x.problem) x.location

theorem look_fails {c : Cursor} {x : LexFault} (h : c.next = .error x) (s : ReadState) :
    Fails (look c) s (faultOf x) { s with reach := max s.reach x.reached } := by
  unfold Fails look
  rw [h]
  rfl

theorem peek_bind_eq (k : Token → Reader β) :
    (peek >>= k) = get >>= fun s => look s.cursor >>= fun x => k x.1 := by
  simp only [peek, bind_assoc, pure_bind]
  rfl

theorem take_eq : take = get >>= fun s => look s.cursor >>= fun x =>
    modify (fun s => { s with cursor := x.2, taken := true }) >>= fun _ => pure x.1 := rfl

theorem Consumes.reach (s : ReadState) (n : Nat) : Consumes s [] { s with reach := n } :=
  ⟨.nil, rfl, by simp⟩

theorem run_get (k : σ → ReaderOf ε σ α) (s : σ) :
    (get >>= k).run.run s = (k s).run.run s := rfl

theorem gives_get {s s' a : σ} : Gives (get : ReaderOf ε σ σ) s a s' ↔ a = s ∧ s' = s := by
  constructor
  · intro h
    cases h
    exact ⟨rfl, rfl⟩
  · rintro ⟨rfl, rfl⟩
    rfl

theorem gives_peek {s s' : ReadState} {t : Token} (h : Gives peek s t s') :
    s.cursor.Faces t ∧ Consumes s [] s' := by
  obtain ⟨_, _, h1, h2⟩ := gives_bind.mp h
  obtain ⟨rfl, rfl⟩ := gives_get.mp h1
  obtain ⟨⟨u, d⟩, _, h3, h4⟩ := gives_bind.mp h2
  obtain ⟨hn, rfl⟩ := gives_look.mp h3
  obtain ⟨rfl, rfl⟩ := gives_pure.mp h4
  exact ⟨⟨d, hn⟩, .reach _ _⟩

theorem peek_of_next {s : ReadState} {t : Token} {d : Cursor} (h : s.cursor.next = .ok (t, d)) :
    Gives peek s t { s with reach := max s.reach t.stop } :=
  (gives_get.mpr ⟨rfl, rfl⟩).bind ((gives_look.mpr ⟨h, rfl⟩).bind (gives_pure.mpr ⟨rfl, rfl⟩))

theorem peek_gives {s : ReadState} {t : Token} (h : s.cursor.Faces t) :
    ∃ s', Gives peek s t s' ∧ Consumes s [] s' := by
  obtain ⟨d, hn⟩ := h
  exact ⟨_, peek_of_next hn, .reach _ _⟩

theorem gives_take {s s' : ReadState} {t u : Token} (ht : s.cursor.Faces t) (he : t.kind ≠ .eof)
    (h : Gives take s u s') : u = t ∧ Consumes s [t] s' := by
  obtain ⟨_, _, h1, h2⟩ := gives_bind.mp h
  obtain ⟨rfl, rfl⟩ := gives_get.mp h1
  obtain ⟨⟨u, d⟩, _, h3, h4⟩ := gives_bind.mp h2
  obtain ⟨hn, rfl⟩ := gives_look.mp h3
  cases h4
  obtain rfl := ht.unique ⟨d, hn⟩
  exact ⟨rfl, .single hn he, rfl, (Bool.or_true _).symm⟩

theorem take_of_next {s : ReadState} {t : Token} {d : Cursor} (h : s.cursor.next = .ok (t, d)) :
    Gives take s t { s with reach := max s.reach t.stop, cursor := d, taken := true } :=
  (gives_get.mpr ⟨rfl, rfl⟩).bind ((gives_look.mpr ⟨h, rfl⟩).bind rfl)

theorem take_gives {s : ReadState} {t : Token} {τ : List Token} {c : Cursor}
    (h : s.cursor.Reads (t :: τ) c) : ∃ s', Gives take s t s' ∧ Consumes s [t] s' := by
  cases h with
  | cons hn ht _ => exact ⟨_, take_of_next hn, .single hn ht, rfl, by simp⟩

theorem gives_sees {s s' : ReadState} {k : TokenKind} {b : Bool} (h : Gives (sees k) s b s') :
    ∃ t, s.cursor.Faces t ∧ b = (t.kind == k) ∧ Consumes s [] s' := by
  obtain ⟨t, _, h1, h2⟩ := gives_bind.mp h
  obtain ⟨ht, hc⟩ := gives_peek h1
  obtain ⟨rfl, rfl⟩ := gives_pure.mp h2
  exact ⟨t, ht, rfl, hc⟩

theorem sees_gives {s : ReadState} {t : Token} (h : s.cursor.Faces t) (k : TokenKind) :
    ∃ s', Gives (sees k) s (t.kind == k) s' ∧ Consumes s [] s' := by
  obtain ⟨s₁, h1, hc⟩ := peek_gives h
  exact ⟨s₁, h1.bind (gives_pure.mpr ⟨rfl, rfl⟩), hc⟩

theorem gives_expect {s s' : ReadState} {k : TokenKind} {t : Token} (hk : k ≠ .eof)
    (h : Gives (expect k) s t s') : t.kind = k ∧ Consumes s [t] s' := by
  obtain ⟨u, _, h1, h2⟩ := gives_bind.mp h
  obtain ⟨hu, hc⟩ := gives_peek h1
  split at h2
  · next e =>
    obtain ⟨rfl, hc'⟩ := gives_take (hc.faces hu) (by rwa [e]) h2
    exact ⟨e, hc.trans hc'⟩
  · exact absurd h2 not_gives_fail

theorem gives_accept {s s' : ReadState} {k : TokenKind} {b : Bool} (hk : k ≠ .eof)
    (h : Gives (accept k) s b s') :
    (b = true ∧ ∃ t, t.kind = k ∧ Consumes s [t] s') ∨
    (b = false ∧ Consumes s [] s' ∧ ∃ t, s.cursor.Faces t ∧ t.kind ≠ k) := by
  obtain ⟨_, _, h1, h2⟩ := gives_bind.mp h
  obtain ⟨t, ht, rfl, hc⟩ := gives_sees h1
  split at h2
  · next e =>
    obtain ⟨u, _, h3, h4⟩ := gives_bind.mp h2
    obtain ⟨rfl, rfl⟩ := gives_pure.mp h4
    obtain ⟨-, hc'⟩ := gives_take (hc.faces ht) (by rwa [eq_of_beq e]) h3
    exact .inl ⟨rfl, t, eq_of_beq e, hc.trans hc'⟩
  · next e =>
    obtain ⟨rfl, rfl⟩ := gives_pure.mp h2
    exact .inr ⟨rfl, hc, t, ht, by simpa using e⟩

theorem gives_peekSecond {s s' : ReadState} {u : Token} (h : Gives peekSecond s u s') :
    Consumes s [] s' ∧ ∃ t d, s.cursor.next = .ok (t, d) ∧
      (t.kind = .eof ∧ u = t ∨ t.kind ≠ .eof ∧ d.Faces u) := by
  obtain ⟨_, _, h1, h2⟩ := gives_bind.mp h
  obtain ⟨rfl, rfl⟩ := gives_get.mp h1
  obtain ⟨⟨t, d⟩, _, h3, h4⟩ := gives_bind.mp h2
  obtain ⟨hn, rfl⟩ := gives_look.mp h3
  simp only at h4
  split at h4
  · next e =>
    obtain ⟨rfl, rfl⟩ := gives_pure.mp h4
    exact ⟨.reach _ _, _, d, hn, .inl ⟨e, rfl⟩⟩
  · next e =>
    obtain ⟨⟨v, d'⟩, _, h5, h6⟩ := gives_bind.mp h4
    obtain ⟨hn', rfl⟩ := gives_look.mp h5
    obtain ⟨rfl, rfl⟩ := gives_pure.mp h6
    exact ⟨.reach _ _, t, d, hn, .inr ⟨e, d', hn'⟩⟩

theorem peekSecond_of_next {s : ReadState} {t u : Token} {d e : Cursor}
    (h : s.cursor.next = .ok (t, d)) (ht : t.kind ≠ .eof) (hu : d.next = .ok (u, e)) :
    Gives peekSecond s u { s with reach := max (max s.reach t.stop) u.stop } := by
  refine (gives_get.mpr ⟨rfl, rfl⟩).bind ((gives_look.mpr ⟨h, rfl⟩).bind ?_)
  simp only
  rw [if_neg ht]
  exact (gives_look.mpr ⟨hu, rfl⟩).bind (gives_pure.mpr ⟨rfl, rfl⟩)

theorem peekSecond_gives {s : ReadState} {t u : Token} {d : Cursor}
    (h : s.cursor.next = .ok (t, d)) (ht : t.kind ≠ .eof) (hu : d.Faces u) :
    ∃ s', Gives peekSecond s u s' ∧ Consumes s [] s' := by
  obtain ⟨e, hn⟩ := hu
  exact ⟨_, peekSecond_of_next h ht hn, .reach _ _⟩

/-! ## Arriving -/

/-- From the state on the tokens `τ` come, and then what is at `c`. -/
structure At (s : ReadState) (τ : List Token) (c : Cursor) : Prop where
  ready : Ready s
  reads : s.cursor.Reads τ c

/-- The first token behind what is read has a kind in `p`; it is the first of
`σ`, or the one at `c`. -/
def Follow (c : Cursor) (p : TokenKind → Prop) : List Token → Prop
  | [] => ∃ t, c.Faces t ∧ p t.kind
  | t :: _ => p t.kind

theorem Follow.mono {c : Cursor} {p q : TokenKind → Prop} (h : ∀ k, p k → q k) :
    ∀ {σ : List Token}, Follow c p σ → Follow c q σ
  | [], ⟨t, ht, hp⟩ => ⟨t, ht, h _ hp⟩
  | _ :: _, hp => h _ hp

/-- The token in question, once the tokens are read. -/
theorem Follow.faces {c d : Cursor} {p : TokenKind → Prop} {σ : List Token} (h : Follow c p σ)
    (hr : d.Reads σ c) : ∃ t, d.Faces t ∧ p t.kind := by
  cases σ with
  | nil => cases hr; exact h
  | cons t σ => exact ⟨t, hr.faces, h⟩

theorem At.consume {s s' : ReadState} {τ σ : List Token} {c : Cursor} (h : At s (τ ++ σ) c)
    (hc : Consumes s τ s') : At s' σ c := by
  obtain ⟨d, h1, h2⟩ := h.reads.split
  obtain rfl := h1.unique hc.reads
  exact ⟨hc.ready h.ready, h2⟩

theorem At.take {s : ReadState} {τ σ : List Token} {c : Cursor} (h : At s (τ ++ σ) c) :
    ∃ d, At s τ d ∧ d.Reads σ c := by
  obtain ⟨d, h1, h2⟩ := h.reads.split
  exact ⟨d, ⟨h.ready, h1⟩, h2⟩

/-- The reader takes `τ` and gives `a`, or it fails for a reason that one of the
tokens has. -/
def Arrives (P : Token → ParseFault → Prop) (m : Reader α) (s : ReadState) (τ : List Token)
    (a : α) : Prop :=
  (∃ s', Gives m s a s' ∧ Consumes s τ s') ∨ ∃ f s', Fails m s f s' ∧ ∃ t ∈ τ, P t f

variable {P : Token → ParseFault → Prop} {s : ReadState} {τ σ : List Token} {c : Cursor}
  {t : Token} {k : TokenKind} {b : β}

namespace Arrives

theorem pure {a : α} : Arrives P (Pure.pure a) s [] a :=
  .inl ⟨s, gives_pure.mpr ⟨rfl, rfl⟩, .refl s⟩

theorem bind {m : Reader α} {f : α → Reader β} {a : α} (h : At s (τ ++ σ) c)
    (hm : Arrives P m s τ a) (hf : ∀ s', At s' σ c → Arrives P (f a) s' σ b) :
    Arrives P (m >>= f) s (τ ++ σ) b := by
  rcases hm with ⟨s₁, h1, hc⟩ | ⟨e, s₁, h1, t, ht, hP⟩
  · rcases hf s₁ (h.consume hc) with ⟨s₂, h2, hc'⟩ | ⟨e, s₂, h2, t, ht, hP⟩
    · exact .inl ⟨s₂, h1.bind h2, hc.trans hc'⟩
    · exact .inr ⟨e, s₂, h1.bind_fails h2, t, List.mem_append_right _ ht, hP⟩
  · exact .inr ⟨e, s₁, h1.bind f, t, List.mem_append_left _ ht, hP⟩

/-- The last part that takes tokens. -/
theorem bind_last {m : Reader α} {f : α → Reader β} {a : α} (h : At s τ c)
    (hm : Arrives P m s τ a) (hf : ∀ s', At s' [] c → Arrives P (f a) s' [] b) :
    Arrives P (m >>= f) s τ b := by
  rw [← List.append_nil τ] at h ⊢
  exact bind h hm hf

/-- A part that takes none. -/
theorem bind_nil {m : Reader α} {f : α → Reader β} {a : α} (h : At s τ c)
    (hm : Arrives P m s [] a) (hf : ∀ s', At s' τ c → Arrives P (f a) s' τ b) :
    Arrives P (m >>= f) s τ b := bind (τ := []) h hm hf

theorem peek_bind {f : Token → Reader β} (h : At s (t :: τ) c)
    (hf : ∀ s', At s' (t :: τ) c → Arrives P (f t) s' (t :: τ) b) :
    Arrives P (peek >>= f) s (t :: τ) b := by
  refine bind_nil h ?_ hf
  obtain ⟨s', h1, hc⟩ := peek_gives h.reads.faces
  exact .inl ⟨s', h1, hc⟩

theorem take_bind {f : Token → Reader β} (h : At s (t :: τ) c)
    (hf : ∀ s', At s' τ c → Arrives P (f t) s' τ b) :
    Arrives P (Reader.take >>= f) s (t :: τ) b := by
  refine bind (τ := [t]) h ?_ hf
  obtain ⟨s', h1, hc⟩ := take_gives h.reads
  exact .inl ⟨s', h1, hc⟩

theorem expect_bind {f : Token → Reader β} (h : At s (t :: τ) c) (ht : t.kind = k)
    (hf : ∀ s', At s' τ c → Arrives P (f t) s' τ b) :
    Arrives P (expect k >>= f) s (t :: τ) b := by
  refine bind (τ := [t]) h ?_ hf
  obtain ⟨s₁, h1, hc₁⟩ := peek_gives h.reads.faces
  obtain ⟨s₂, h2, hc₂⟩ := take_gives (hc₁.cursor_eq ▸ h.reads)
  refine .inl ⟨s₂, h1.bind ?_, hc₁.trans hc₂⟩
  rw [if_pos ht]
  exact h2

theorem sees_bind {f : Bool → Reader β} (answer : Bool) (h : At s τ c)
    {p : TokenKind → Prop} (hp : Follow c p τ) (ha : ∀ k', p k' → (k' == k) = answer)
    (hf : ∀ s', At s' τ c → Arrives P (f answer) s' τ b) :
    Arrives P (sees k >>= f) s τ b := by
  refine bind_nil h ?_ hf
  obtain ⟨t, ht, hpt⟩ := hp.faces h.reads
  obtain ⟨s₁, h1, hc⟩ := sees_gives ht k
  rw [ha _ hpt] at h1
  exact .inl ⟨s₁, h1, hc⟩

theorem accept_bind_true {f : Bool → Reader β} (h : At s (t :: τ) c) (ht : t.kind = k)
    (hf : ∀ s', At s' τ c → Arrives P (f true) s' τ b) :
    Arrives P (accept k >>= f) s (t :: τ) b := by
  refine bind (τ := [t]) h ?_ hf
  obtain ⟨s₁, h1, hc₁⟩ := sees_gives h.reads.faces k
  obtain ⟨s₂, h2, hc₂⟩ := take_gives (hc₁.cursor_eq ▸ h.reads)
  refine .inl ⟨s₂, h1.bind ?_, hc₁.trans hc₂⟩
  rw [if_pos (beq_iff_eq.mpr ht)]
  exact h2.bind (gives_pure.mpr ⟨rfl, rfl⟩)

theorem accept_bind_false {f : Bool → Reader β} (h : At s τ c) (hn : Follow c (· ≠ k) τ)
    (hf : ∀ s', At s' τ c → Arrives P (f false) s' τ b) :
    Arrives P (accept k >>= f) s τ b := by
  refine bind_nil h ?_ hf
  obtain ⟨t, ht, hp⟩ := hn.faces h.reads
  obtain ⟨s₁, h1, hc⟩ := sees_gives ht k
  refine .inl ⟨s₁, h1.bind ?_, hc⟩
  rw [if_neg (by simpa using hp)]
  exact gives_pure.mpr ⟨rfl, rfl⟩

theorem peekSecond_bind {f : Token → Reader β} {p : TokenKind → Prop} (h : At s (t :: τ) c)
    (hp : Follow c p τ)
    (hf : ∀ u s', p u.kind → At s' (t :: τ) c → Arrives P (f u) s' (t :: τ) b) :
    Arrives P (peekSecond >>= f) s (t :: τ) b := by
  obtain ⟨d, hn, ht, hr⟩ := h.reads.exists_next
  obtain ⟨u, hu, hpu⟩ := hp.faces hr
  refine bind_nil h ?_ fun s' hs' => hf u s' hpu hs'
  obtain ⟨s₁, h1, hc⟩ := peekSecond_gives hn ht hu
  exact .inl ⟨s₁, h1, hc⟩

end Arrives

/-! ## Repetitions -/

/-- Each turn takes a token. -/
def Advances (step : Reader (Option α)) : Prop :=
  ∀ {s s' : ReadState} {a : α}, Ready s → Gives step s (some a) s' →
    ∃ τ, τ ≠ [] ∧ Consumes s τ s'

section Many

variable {step : Reader (Option α)} {a : α} {as : List α}

/-- A bound above the number of tokens that are left makes no difference. -/
theorem repeatWithin_congr (adv : Advances step) : ∀ (n m : Nat) (s : ReadState), Ready s →
    s.cursor.rest.length < n → s.cursor.rest.length < m →
    (repeatWithin step n).run.run s = (repeatWithin step m).run.run s := by
  intro n
  induction n with
  | zero => intro m s _ h _; exact absurd h (Nat.not_lt_zero _)
  | succ n ih =>
    intro m s hs hn hm
    cases m with
    | zero => exact absurd hm (Nat.not_lt_zero _)
    | succ m =>
      unfold repeatWithin
      rw [run_bind, run_bind]
      rcases h : step.run.run s with ⟨_ | _ | a, s₁⟩
      · rfl
      · rfl
      · obtain ⟨τ, hτ, hc⟩ := adv hs h
        have hlt := hc.length_lt hτ
        simp only [run_bind]
        rw [ih m s₁ (hc.ready hs) (by omega) (by omega)]

theorem many_run_of_le (adv : Advances step) (hs : Ready s) {n : Nat} (hn : s.bound ≤ n) :
    (many step).run.run s = (repeatWithin step n).run.run s :=
  repeatWithin_congr adv s.bound n s hs hs (Nat.lt_of_lt_of_le hs hn)

/-- A repetition is one turn, and then the repetition. -/
theorem many_run (adv : Advances step) (hs : Ready s) :
    (many step).run.run s = (step >>= fun
      | none => pure []
      | some a => many step >>= fun rest => pure (a :: rest)).run.run s := by
  show (repeatWithin step s.bound).run.run s = _
  rw [repeatWithin_congr adv s.bound (s.cursor.rest.length + 1) s hs hs (Nat.lt_succ_self _),
    repeatWithin, run_bind, run_bind]
  rcases h : step.run.run s with ⟨_ | _ | a, s₁⟩
  · rfl
  · rfl
  · obtain ⟨τ, hτ, hc⟩ := adv hs h
    have hlt := hc.length_lt hτ
    have hb := hc.ready hs
    simp only [run_bind]
    rw [repeatWithin_congr adv s.cursor.rest.length s₁.bound s₁ hb hlt hb]
    rfl

/-- What holds when a repetition stops, and is kept by a turn before it, holds
of every repetition. -/
theorem many_induction (adv : Advances step) {motive : ReadState → List α → ReadState → Prop}
    (stop : ∀ {s s'}, Ready s → Gives step s none s' → motive s [] s')
    (turn : ∀ {s s₁ s' a as}, Ready s → Gives step s (some a) s₁ → motive s₁ as s' →
      motive s (a :: as) s') :
    ∀ (n : Nat) {s s' : ReadState} {as : List α}, s.cursor.rest.length < n → Ready s →
      Gives (many step) s as s' → motive s as s' := by
  intro n
  induction n with
  | zero => intro s s' as h _ _; exact absurd h (Nat.not_lt_zero _)
  | succ n ih =>
    intro s s' as hn hs h
    unfold Gives at h
    rw [many_run adv hs] at h
    obtain ⟨_ | a, s₁, h1, h2⟩ := gives_bind.mp h
    · obtain ⟨rfl, rfl⟩ := gives_pure.mp h2
      exact stop hs h1
    · obtain ⟨rest, s₂, h3, h4⟩ := gives_bind.mp h2
      obtain ⟨rfl, rfl⟩ := gives_pure.mp h4
      obtain ⟨τ, hτ, hc⟩ := adv hs h1
      have hlt := hc.length_lt hτ
      exact turn hs h1 (ih (by omega) (hc.ready hs) h3)

theorem arrives_congr {m m' : Reader α} (h : m.run.run s = m'.run.run s) :
    Arrives P m s τ a ↔ Arrives P m' s τ a := by
  unfold Arrives Gives Fails
  rw [h]

theorem Arrives.many_stop (adv : Advances step) (h : At s τ c) (hm : Arrives P step s τ none) :
    Arrives P (many step) s τ [] := by
  rw [arrives_congr (many_run adv h.ready)]
  exact bind_last h hm fun _ _ => .pure

theorem Arrives.many_turn (adv : Advances step) (h : At s (τ ++ σ) c)
    (hm : Arrives P step s τ (some a)) (hf : ∀ s', At s' σ c → Arrives P (many step) s' σ as) :
    Arrives P (many step) s (τ ++ σ) (a :: as) := by
  rw [arrives_congr (many_run adv h.ready)]
  exact bind h hm fun s₁ h₁ => bind_last h₁ (hf s₁ h₁) fun _ _ => .pure

end Many

end Reader

end SpanScript
