import SpanScript.Proofs.Syntax.Compositional

/-!
# Two texts that share their tokens up to a point

What is read of a text depends on the tokens that are looked at.  Here two texts have the
same tokens up to a point, and differ behind it.  As long as a reader stays before the point
it does the same on both.

There are two kinds of points.  Behind the first kind no token of the second text can be
read: a reader that looks at it fails there.  The second kind is a closing brace that both
texts have, where no brace has been opened: it is looked at, and never taken.

* `Shared`, `Sharing`: two places, and two states of readers, before such a point.
* `Along`: what a reader does on both texts.
* `compositional_along`: it is the same on both, but for the fault at a point of the first
  kind.
* `along_oneStatement`: so it is for the next statement.
-/

namespace SpanScript.Reader

open Grammar

variable {α β : Type} {x : LexFault} {bare : Bool}

/-! ## Points at which texts part -/

/-- Where two texts part: at a byte of the second one that begins no token, or, where no
brace is open, at a closing brace. -/
inductive Parting (x : LexFault) : Bool → Cursor → Cursor → Prop
  | broken {e e' : Cursor} : e'.next = .error x → Parting x false e e'
  | brace {e d e' d' : Cursor} {u : Token} : e.next = .ok (u, d) → e'.next = .ok (u, d') →
      u.kind = .rbrace → Parting x true e e'

/-- Two places with the same tokens up to a point where the texts part, among them no
opening brace if a closing one is the point. -/
structure Shared (x : LexFault) (bare : Bool) (c c' : Cursor) : Prop where
  offset : c'.offset = c.offset
  tokens : ∃ σ e e', c.Reads σ e ∧ c'.Reads σ e' ∧ Parting x bare e e' ∧
    (bare = true → ∀ u ∈ σ, u.kind ≠ .lbrace)

/-- The next token of both texts, and the places behind it. -/
structure Next (x : LexFault) (bare : Bool) (c c' : Cursor) (u : Token) (d d' : Cursor) :
    Prop where
  left : c.next = .ok (u, d)
  right : c'.next = .ok (u, d')
  ne_eof : u.kind ≠ .eof
  ne_lbrace : bare = true → u.kind ≠ .lbrace
  shared : bare = false ∨ u.kind ≠ .rbrace → Shared x bare d d'

/-- There is a next token of both texts, unless no token of the second one can be read. -/
theorem Shared.next {c c' : Cursor} (h : Shared x bare c c') :
    (bare = false ∧ c'.next = .error x) ∨ ∃ u d d', Next x bare c c' u d d' := by
  obtain ⟨σ, e, e', hr, hr', hp, hσ⟩ := h.tokens
  cases hr with
  | nil =>
    cases hr'
    cases hp with
    | broken hx => exact .inl ⟨rfl, hx⟩
    | brace hn hn' hk =>
      refine .inr ⟨_, _, _, hn, hn', by rw [hk]; decide, fun _ => by rw [hk]; decide, ?_⟩
      rintro (hb | hk')
      · cases hb
      · exact absurd hk hk'
  | @cons c d e u τ hn hu hr =>
    cases hr' with
    | @cons _ d' _ _ _ hn' _ hr' =>
      obtain ⟨_, _, _, hl⟩ := Cursor.exists_lies_of_next hn hu
      obtain ⟨_, _, _, hl'⟩ := Cursor.exists_lies_of_next hn' hu
      refine .inr ⟨u, d, d', hn, hn', hu, fun hb => hσ hb u List.mem_cons_self, fun _ => ?_⟩
      exact ⟨hl'.stop.symm.trans hl.stop, τ, e, e', hr, hr', hp,
        fun hb v hv => hσ hb v (List.mem_cons_of_mem _ hv)⟩

/-- Two states at such places. -/
structure Sharing (x : LexFault) (bare : Bool) (s t : ReadState) : Prop where
  shared : Shared x bare s.cursor t.cursor
  left : Ready s
  right : Ready t

theorem Sharing.reach {s t : ReadState} (h : Sharing x bare s t) (n n' : Nat) :
    Sharing x bare { s with reach := n } { t with reach := n' } := ⟨h.shared, h.left, h.right⟩

/-! ## What a reader does on both texts -/

/-- Two readers do the same on the two texts and stay before the point where they part; or
the second one fails where no token can be read. -/
inductive Along (x : LexFault) (bare : Bool) (m m' : Reader α) (s t : ReadState) : Prop
  | breaks {t' : ReadState} : bare = false → Fails m' t (faultOf x) t' → Along x bare m m' s t
  | fails {f : ParseFault} {s' t' : ReadState} : Fails m s f s' → Fails m' t f t' →
      Along x bare m m' s t
  | gives {a : α} {s' t' : ReadState} : Gives m s a s' → Gives m' t a t' →
      Sharing x bare s' t' → Along x bare m m' s t

variable {s t : ReadState}

theorem Along.pure (h : Sharing x bare s t) (a : α) :
    Along x bare (Pure.pure a) (Pure.pure a) s t :=
  .gives (gives_pure.mpr ⟨rfl, rfl⟩) (gives_pure.mpr ⟨rfl, rfl⟩) h

theorem Along.throw (f : ParseFault) :
    Along x bare (MonadExcept.throw f : Reader α) (MonadExcept.throw f) s t :=
  .fails (fails_throw f s) (fails_throw f t)

/-- What comes behind a reader that gives an answer on each text. -/
theorem Along.gives_bind {m m' : Reader α} {k k' : α → Reader β} {a a' : α} {s₁ t₁ : ReadState}
    (h : Gives m s a s₁) (h' : Gives m' t a' t₁) (hk : Along x bare (k a) (k' a') s₁ t₁) :
    Along x bare (m >>= k) (m' >>= k') s t := by
  cases hk with
  | breaks hb h2 => exact .breaks hb (h'.bind_fails h2)
  | fails h2 h2' => exact .fails (h.bind_fails h2) (h'.bind_fails h2')
  | gives h2 h2' hst => exact .gives (h.bind h2) (h'.bind h2') hst

/-- One reader and then another, for which the answers of the first are known. -/
theorem Along.bind_gives {m m' : Reader α} {k k' : α → Reader β} (h : Along x bare m m' s t)
    (hk : ∀ a u v, Gives m s a u → Gives m' t a v → Sharing x bare u v →
      Along x bare (k a) (k' a) u v) : Along x bare (m >>= k) (m' >>= k') s t := by
  cases h with
  | breaks hb h => exact .breaks hb (h.bind k')
  | fails h h' => exact .fails (h.bind k) (h'.bind k')
  | gives h h' huv => exact .gives_bind h h' (hk _ _ _ h h' huv)

theorem Along.bind {m m' : Reader α} {k k' : α → Reader β} (h : Along x bare m m' s t)
    (hk : ∀ a u v, Sharing x bare u v → Along x bare (k a) (k' a) u v) :
    Along x bare (m >>= k) (m' >>= k') s t := h.bind_gives fun a u v _ _ => hk a u v

/-- The same of readers that do the same. -/
theorem Along.congr {m m' n n' : Reader α} (h : m.run.run s = n.run.run s)
    (h' : m'.run.run t = n'.run.run t) (ha : Along x bare n n' s t) : Along x bare m m' s t := by
  cases ha with
  | breaks hb hf => exact .breaks hb (h'.trans hf)
  | fails hf hf' => exact .fails (h.trans hf) (h'.trans hf')
  | gives hg hg' hst => exact .gives (h.trans hg) (h'.trans hg') hst

/-- A look at a place that both texts have. -/
theorem Along.look_bind {c c' : Cursor} {k k' : Token × Cursor → Reader α}
    (hst : Sharing x bare s t) (h : Shared x bare c c')
    (hk : ∀ u d d' s' t', Next x bare c c' u d d' → s'.cursor = s.cursor → t'.cursor = t.cursor →
      Sharing x bare s' t' → Along x bare (k (u, d)) (k' (u, d')) s' t') :
    Along x bare (look c >>= k) (look c' >>= k') s t := by
  obtain ⟨rfl, hx⟩ | ⟨u, d, d', hn⟩ := h.next
  · exact .breaks rfl ((look_fails hx t).bind k')
  · exact .gives_bind (gives_look.mpr ⟨hn.left, rfl⟩) (gives_look.mpr ⟨hn.right, rfl⟩)
      (hk u d d' _ _ hn rfl rfl (hst.reach _ _))

theorem Along.peek_bind {k k' : Token → Reader α} (hst : Sharing x bare s t)
    (hk : ∀ u d d' s' t', Next x bare s.cursor t.cursor u d d' → s'.cursor = s.cursor →
      t'.cursor = t.cursor → Sharing x bare s' t' → Along x bare (k u) (k' u) s' t') :
    Along x bare (peek >>= k) (peek >>= k') s t := by
  rw [peek_bind_eq, peek_bind_eq]
  exact .gives_bind (gives_get.mpr ⟨rfl, rfl⟩) (gives_get.mpr ⟨rfl, rfl⟩)
    (.look_bind hst hst.shared hk)

/-- A token that may be taken is taken on both texts. -/
theorem Along.take {u : Token} (hst : Sharing x bare s t) (hu : s.cursor.Faces u)
    (hk : bare = false ∨ u.kind ≠ .rbrace) : Along x bare take take s t := by
  rw [take_eq]
  refine .gives_bind (gives_get.mpr ⟨rfl, rfl⟩) (gives_get.mpr ⟨rfl, rfl⟩) ?_
  refine .look_bind hst hst.shared fun v d d' s' t' hn hs ht hst' => ?_
  obtain rfl := hu.unique ⟨d, hn.left⟩
  have hleft : d.rest.length ≤ s.cursor.rest.length := (Cursor.length_of_next hn.left).1
  have hright : d'.rest.length ≤ t.cursor.rest.length := (Cursor.length_of_next hn.right).1
  have hs' : s'.cursor.rest.length < s'.bound := hst'.left
  have ht' : t'.cursor.rest.length < t'.bound := hst'.right
  rw [hs] at hs'
  rw [ht] at ht'
  have hst₁ : Sharing x bare { s' with cursor := d, taken := true }
      { t' with cursor := d', taken := true } :=
    ⟨hn.shared hk, Nat.lt_of_le_of_lt hleft hs', Nat.lt_of_le_of_lt hright ht'⟩
  exact .gives rfl rfl hst₁

theorem Along.repeatWithin {step : Reader (Option α)}
    (h : ∀ s t, Sharing x bare s t → Along x bare step step s t) : ∀ (fuel : Nat)
    (s t : ReadState), Sharing x bare s t →
      Along x bare (repeatWithin step fuel) (repeatWithin step fuel) s t := by
  intro fuel
  induction fuel with
  | zero => exact fun _ _ hst => .pure hst []
  | succ fuel ih =>
    refine fun s t hst => (h s t hst).bind fun o u v huv => ?_
    cases o with
    | none => exact .pure huv []
    | some a => exact (ih u v huv).bind fun as _ _ h => .pure h _

/-- No repetition comes to its bound, so that the bounds of both texts may be one. -/
theorem Along.many {step : Reader (Option α)} (adv : Advances step)
    (h : ∀ s t, Sharing x bare s t → Along x bare step step s t) (hst : Sharing x bare s t) :
    Along x bare (many step) (many step) s t :=
  .congr (many_run_of_le adv hst.left (Nat.le_max_left _ _))
    (many_run_of_le adv hst.right (Nat.le_max_right _ _)) (.repeatWithin h _ s t hst)

/-- To do the same on both texts is kept by the steps that readers are made of. -/
theorem compositional_along (x : LexFault) (bare : Bool) :
    Compositional (fun p : { p : ReadState × ReadState // Sharing x bare p.1 p.2 } =>
        (p.1.1.cursor, p.1.2.cursor))
      (fun c u => c.1.Faces u) (fun m p => Along x bare m m p.1.1 p.1.2) where
  pure a p := .pure p.2 a
  throw f _ := .throw f
  bind h hk := h.bind fun a u v huv => hk a ⟨(u, v), huv⟩
  peek {_ _ p} hk := .peek_bind p.2 fun u d _ s' t' hn hs ht hst =>
    hk u ⟨(s', t'), hst⟩ (Prod.ext hs ht) ⟨d, hs ▸ hn.left⟩
  take {_ p} ht hk := .take p.2 ht (.inr hk.2.1)
  many {_ _ p} adv h := .many adv (fun s t hst => h ⟨(s, t), hst⟩) p.2

/-! ## The looks ahead -/

/-- The look at two tokens, where the first one is no closing brace or one may be taken. -/
theorem Along.peekSecond {u : Token} (hst : Sharing x bare s t) (hu : s.cursor.Faces u)
    (hk : bare = false ∨ u.kind ≠ .rbrace) : Along x bare peekSecond peekSecond s t := by
  refine .gives_bind (gives_get.mpr ⟨rfl, rfl⟩) (gives_get.mpr ⟨rfl, rfl⟩) ?_
  refine .look_bind hst hst.shared fun v d d' s' t' hn _ _ hst' => ?_
  obtain rfl := hu.unique ⟨d, hn.left⟩
  simp only [if_neg hn.ne_eof]
  exact .look_bind hst' (hn.shared hk) fun _ _ _ _ _ _ _ _ h => .pure h _

theorem Along.brackets : ∀ (fuel depth : Nat) {c c' : Cursor} {s t : ReadState},
    Shared x false c c' → Sharing x false s t →
    Along x false (bracketsThenEquals fuel depth c) (bracketsThenEquals fuel depth c') s t := by
  intro fuel
  induction fuel with
  | zero => exact fun _ _ _ _ _ _ hst => .pure hst false
  | succ fuel ih =>
    intro depth c c' s t h hst
    cases depth <;>
    · rw [bracketsThenEquals, bracketsThenEquals]
      refine .look_bind hst h fun u d d' s' t' hn _ _ hst' => ?_
      dsimp only
      split <;> first | exact ih _ (hn.shared (.inl rfl)) hst' | exact .pure hst' _

theorem Along.cellFollows (hst : Sharing x false s t) :
    Along x false cellFollows cellFollows s t :=
  .congr (run_cellFollows_of_le hst.left (Nat.le_max_left _ _))
    (run_cellFollows_of_le hst.right (Nat.le_max_right _ _))
    (.look_bind hst hst.shared fun _ _ _ _ _ hn _ _ hst' =>
      .brackets _ 0 (hn.shared (.inl rfl)) hst')

/-! ## Productions -/

theorem along_expression (n extra : Nat) (hst : Sharing x bare s t) :
    Along x bare (expression n extra) (expression n extra) s t := by
  have L := compositional_along x bare
  exact L.expression (fun n w h p => L.argument (i := p) (L.keywordComes fun {u q} hu hk =>
    .peekSecond q.2 hu (.inr (by rw [hk]; decide))) h) n extra ⟨(s, t), hst⟩

/-- Where no brace is open, there is no block either. -/
theorem Along.block {m : Reader Stmt} (hst : Sharing x true s t) :
    Along x true (block m) (block m) s t :=
  .peek_bind hst fun u _ _ _ _ hn _ _ _ => by
    rw [if_pos (hn.ne_lbrace rfl)]
    exact .throw _

/-- **The next statement is the same on both texts, and so is why there is none**, if the
reader does not fail at the point where the texts part. -/
theorem along_oneStatement (types : List TypeName) (nesting : Nat) (hst : Sharing x false s t) :
    Along x false (oneStatement types nesting) (oneStatement types nesting) s t := by
  have L := compositional_along x false
  have hs := L.statement types (fun n w p => along_expression n w p.2)
    (fun n u p hu hk => L.named types u (.peekSecond p.2 hu (.inl rfl))
      (fun q => .cellFollows q.2) (fun w q => along_expression n w q.2))
    (fun n h p => L.block (fun {u q} hu _ => .take q.2 hu (.inl rfl))
      (statement_reads_any ..) h)
  exact L.oneStatement (hs nesting 0) (i := ⟨(s, t), hst⟩)

end SpanScript.Reader
