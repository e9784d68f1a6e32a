import SpanScript.Proofs.Syntax.Compositional

/-!
# The bound of a reader does not matter

A reader has a bound for the tokens that are left, taken from the text that it began with.  One
that began with a longer text has a larger bound.  Two states are abreast when they differ in
nothing else, and both bounds are above the number of tokens that are left; a reader is steady
when it gives the same from both, or fails for the same reason, and leaves them abreast.

Only repetitions and the look past indices go by the bound.  Each of their turns takes a
token, so neither comes to it.

* `Steady.bind` and the lemmas beside it: the steps that readers are made of.
* `steady_many`: repetitions.
* `steady_oneStatement`: the next statement of a text.
-/

namespace SpanScript

namespace Reader

open Grammar

variable {α β : Type} {s t : ReadState}

/-- Two states that differ in their bounds only, which are above the number of tokens that are
left. -/
structure Abreast (s t : ReadState) : Prop where
  cursor : t.cursor = s.cursor
  taken : t.taken = s.taken
  reach : t.reach = s.reach
  left : Ready s
  right : Ready t

/-- From states that are abreast the readers give the same, or fail for the same reason,
and leave states that are abreast. -/
def SteadyAt (m m' : Reader α) (s t : ReadState) : Prop :=
  (m'.run.run t).1 = (m.run.run s).1 ∧ Abreast (m.run.run s).2 (m'.run.run t).2

/-- A reader that does not come to its bound. -/
def Steady (m : Reader α) : Prop := ∀ s t, Abreast s t → SteadyAt m m s t

/-! ## Steps -/

theorem steady_pure (a : α) : Steady (pure a) := fun _ _ h => ⟨rfl, h⟩

theorem SteadyAt.bind {m m' : Reader α} {k k' : α → Reader β} (h : SteadyAt m m' s t)
    (h' : ∀ a u v, Abreast u v → SteadyAt (k a) (k' a) u v) :
    SteadyAt (m >>= k) (m' >>= k') s t := by
  unfold SteadyAt at h ⊢
  rw [run_bind, run_bind]
  generalize m.run.run s = x at h ⊢
  generalize m'.run.run t = y at h ⊢
  obtain ⟨r, u⟩ := x
  obtain ⟨r', v⟩ := y
  obtain ⟨hr, huv⟩ := h
  obtain rfl : r' = r := hr
  cases r' with
  | ok a => exact h' a u v huv
  | error f => exact ⟨rfl, huv⟩

theorem Steady.bind {m : Reader α} {k : α → Reader β} (h : Steady m) (h' : ∀ a, Steady (k a)) :
    Steady (m >>= k) := fun s t hst => (h s t hst).bind fun a => h' a

/-- What is answered last is made of what has been read. -/
theorem Steady.map {m : Reader α} (h : Steady m) (p : α → β) :
    Steady (m >>= fun a => pure (p a)) := h.bind fun _ => steady_pure _

theorem steady_get {k : ReadState → Reader α}
    (h : ∀ s t, Abreast s t → SteadyAt (k s) (k t) s t) : Steady (get >>= k) := h

theorem Abreast.look (h : Abreast s t) (n : Nat) :
    Abreast { s with reach := max s.reach n } { t with reach := max t.reach n } :=
  ⟨h.cursor, h.taken, congrArg (max · n) h.reach, h.left, h.right⟩

theorem Abreast.endOffset_eq (h : Abreast s t) : t.endOffset = s.endOffset := by
  rw [ReadState.endOffset, h.cursor, h.taken, h.reach]
  rfl

/-- States that are abreast stand at one place. -/
theorem Abreast.here (h : Abreast s t) : TokenSource.here t = TokenSource.here s := h.cursor

theorem steady_look (c : Cursor) : Steady (TokenSource.look c : Reader (Token × Cursor)) := by
  intro s t hst
  show SteadyAt (look c) (look c) s t
  unfold SteadyAt look
  cases c.next with
  | ok x => exact ⟨rfl, hst.look _⟩
  | error f => exact ⟨rfl, hst.look _⟩

theorem steadyAt_peek_bind {k : Token → Reader α} (h : Abreast s t)
    (hk : ∀ x u v, Abreast u v → u.cursor = s.cursor → u.cursor.Faces x →
      SteadyAt (k x) (k x) u v) : SteadyAt (peek >>= k) (peek >>= k) s t := by
  rw [peek_bind_eq]
  show SteadyAt (look s.cursor >>= fun x => k x.1) (look t.cursor >>= fun x => k x.1) s t
  rw [h.cursor]
  unfold SteadyAt
  rw [run_bind, run_bind]
  unfold look
  cases hn : s.cursor.next with
  | ok x => exact hk x.1 _ _ (h.look _) rfl ⟨x.2, hn⟩
  | error f => exact ⟨rfl, h.look _⟩

theorem steady_peekSecond : Steady peekSecond := by
  refine steady_get fun s t hst => ?_
  rw [hst.here]
  refine (steady_look s.cursor).bind (fun x => ?_) s t hst
  dsimp only
  split
  · exact steady_pure _
  · exact (steady_look _).map _

theorem steady_take : Steady take := by
  refine steady_get fun s t hst => ?_
  rw [hst.here]
  show SteadyAt (look s.cursor >>= _) (look s.cursor >>= _) s t
  unfold SteadyAt look
  cases hn : s.cursor.next with
  | error f => exact ⟨rfl, hst.look _⟩
  | ok x =>
    obtain ⟨u, d⟩ := x
    have hd := (Cursor.length_of_next hn).1
    have hs : s.cursor.rest.length < s.bound := hst.left
    have ht : t.cursor.rest.length < t.bound := hst.right
    rw [hst.cursor] at ht
    exact ⟨rfl, rfl, rfl, congrArg (max · u.stop) hst.reach, Nat.lt_of_le_of_lt hd hs,
      Nat.lt_of_le_of_lt hd ht⟩

/-! ## Repetitions -/

theorem steady_repeatWithin {step : Reader (Option α)} (h : Steady step) : ∀ fuel : Nat,
    Steady (repeatWithin step fuel) := by
  intro fuel
  induction fuel with
  | zero => exact steady_pure []
  | succ fuel ih =>
    refine h.bind fun o => ?_
    cases o with
    | none => exact steady_pure []
    | some a => exact ih.map _

/-- A repetition does not come to its bound. -/
theorem steady_many {step : Reader (Option α)} (adv : Advances step) (h : Steady step) :
    Steady (many step) := by
  refine steady_get fun s t hst => ?_
  have hbound := repeatWithin_congr adv (TokenSource.bound t) (TokenSource.bound s) t hst.right
    hst.right (hst.cursor ▸ hst.left)
  have hrun := steady_repeatWithin h s.bound s t hst
  unfold SteadyAt at hrun ⊢
  rw [hbound]
  exact hrun

/-! ## The look past indices -/

theorem steady_bracketsThenEquals : ∀ (fuel depth : Nat) (c : Cursor),
    Steady (bracketsThenEquals fuel depth c) := by
  intro fuel
  induction fuel with
  | zero => exact fun _ _ => steady_pure _
  | succ fuel ih =>
    intro depth c
    cases depth with
    | zero =>
      rw [bracketsThenEquals]
      refine (steady_look c).bind fun x => ?_
      obtain ⟨t, d⟩ := x
      dsimp only
      split
      · exact ih _ _
      · exact steady_pure _
      · exact steady_pure _
    | succ depth =>
      rw [bracketsThenEquals]
      refine (steady_look c).bind fun x => ?_
      obtain ⟨t, d⟩ := x
      dsimp only
      split
      · exact steady_pure _
      · exact ih _ _
      · exact ih _ _
      · exact ih _ _

theorem steady_cellFollows : Steady cellFollows := by
  intro s t hst
  unfold SteadyAt
  rw [run_cellFollows_of_le hst.left (Nat.le_max_left s.bound t.bound),
    run_cellFollows_of_le hst.right (Nat.le_max_right s.bound t.bound), hst.cursor]
  exact (steady_look _).bind (fun _ => steady_bracketsThenEquals _ _ _) s t hst

/-! ## Productions -/

/-- Steadiness is kept by the steps that readers are made of. -/
theorem compositional_steady :
    Compositional (fun p : { p : ReadState × ReadState // Abreast p.1 p.2 } => p.1.1.cursor)
      Cursor.Faces (fun m p => SteadyAt m m p.1.1 p.1.2) where
  pure a p := steady_pure a _ _ p.2
  throw _ p := ⟨rfl, p.2⟩
  bind h hk := h.bind fun a u v huv => hk a ⟨(u, v), huv⟩
  peek {_ _ p} hk := steadyAt_peek_bind p.2 fun x u v huv hu hx => hk x ⟨(u, v), huv⟩ hu hx
  take {_ p} _ _ := steady_take _ _ p.2
  many {_ _ p} adv hstep := steady_many adv (fun s t h => hstep ⟨(s, t), h⟩) _ _ p.2

/-- **The next statement of a text does not depend on the bound.** -/
theorem steady_oneStatement (types : List TypeName) (nesting : Nat) :
    Steady (oneStatement types nesting) := by
  have L := compositional_steady
  have hsecond (p : { p : ReadState × ReadState // Abreast p.1 p.2 }) :
      SteadyAt peekSecond peekSecond p.1.1 p.1.2 := steady_peekSecond _ _ p.2
  have hcell (p : { p : ReadState × ReadState // Abreast p.1 p.2 }) :
      SteadyAt cellFollows cellFollows p.1.1 p.1.2 := steady_cellFollows _ _ p.2
  have he := L.expression fun n w h p =>
    L.argument (i := p) (L.keywordComes fun {_ q} _ _ => hsecond q) h
  have hs := L.statement types he
    (fun n t p _ _ => L.named types t (hsecond p) hcell (he n))
    (fun n h p => L.block (fun {_ q} _ _ => steady_take _ _ q.2) (statement_reads_any ..) h)
  exact fun s t h => L.oneStatement (hs nesting 0) (i := ⟨(s, t), h⟩)

end Reader

end SpanScript
