import SpanScript.Proofs.Syntax.Expression

/-!
# Looking past indices

An assignment to a tensor cell is told from an expression by what stands behind
the indices.  `cellFollows` finds that out without reading them: it counts
brackets.  Brackets balance in every index, so that it stops behind the last one.

* `openAfter`: how many brackets are open behind tokens, unless the count has come to its
  answer; `run_brackets`: the count goes over tokens as this says.
* `run_cellFollows`, `arrives_cellFollows`: it tells whether an equals sign comes behind the
  indices.
* `ReadsExprs`: what is asked of the readers of expressions in a statement.
-/

namespace SpanScript.Reader

open Grammar

variable {α β : Type} {P : Token → ParseFault → Prop} {fits : String → Prop} {τ σ : List Token}
  {c d : Cursor}

/-- How many brackets are open behind a token before which `depth` are; or whether the look
answers yes or no at the token. -/
def openStep : Nat → TokenKind → Except Bool Nat
  | 0, .lbracket => .ok 1
  | 0, .equals => .error true
  | 0, _ => .error false
  | depth + 1, .lbracket => .ok (depth + 2)
  | depth + 1, .rbracket => .ok depth
  | depth + 1, _ => .ok (depth + 1)

/-- How many brackets are open behind tokens before which `depth` are, unless the look
answers before it is past them. -/
def openAfter (depth : Nat) (τ : List Token) : Except Bool Nat :=
  τ.foldlM (fun depth t => openStep depth t.kind) depth

theorem openAfter_cons (depth : Nat) (t : Token) (τ : List Token) :
    openAfter depth (t :: τ) = openStep depth t.kind >>= fun k => openAfter k τ :=
  List.foldlM_cons

theorem openAfter_append (depth : Nat) (τ σ : List Token) :
    openAfter depth (τ ++ σ) = openAfter depth τ >>= fun k => openAfter k σ :=
  List.foldlM_append

theorem openStep_plain {k : TokenKind} (h1 : k ≠ .lbracket) (h2 : k ≠ .rbracket) (depth : Nat) :
    openStep (depth + 1) k = .ok (depth + 1) := by
  cases k <;> first | rfl | contradiction

/-- Tokens in which brackets balance leave as many open as there were. -/
theorem openAfter_balanced (h : Balanced τ) : ∀ {depth : Nat},
    openAfter (depth + 1) τ = .ok (depth + 1) := by
  induction h with
  | nil => exact rfl
  | @plain t τ h1 h2 _ ih =>
    intro depth
    rw [openAfter_cons, openStep_plain h1 h2]
    exact ih
  | @group l r τ σ hl _ hr _ ih₁ ih₂ =>
    intro depth
    have hopen : openStep (depth + 1) l.kind = .ok (depth + 2) := by rw [hl]; rfl
    have hclose : openStep (depth + 2) r.kind = .ok (depth + 1) := by rw [hr]; rfl
    calc openAfter (depth + 1) (l :: (τ ++ r :: σ))
        = openAfter (depth + 2) (τ ++ r :: σ) := by rw [openAfter_cons, hopen]; rfl
      _ = openAfter (depth + 2) (r :: σ) := by rw [openAfter_append, ih₁]; rfl
      _ = openAfter (depth + 1) σ := by rw [openAfter_cons, hclose]; rfl
      _ = .ok (depth + 1) := ih₂

/-- Behind indices no bracket is open. -/
theorem openAfter_indexGroups {R : Phrase Expr} {gs : List (Location × List Expr)}
    (hR : ∀ {σ e}, R σ e → Balanced σ) (h : IsIndexGroups R τ gs) : openAfter 0 τ = .ok 0 := by
  induction h with
  | nil => rfl
  | @cons l τ σ indices gs hl hlist _ ih =>
    obtain ⟨ρ, r, rfl, hr, hρ⟩ := balanced_commaList (fun _ _ h => hR h) hlist
    have hopen : openStep 0 l.kind = .ok 1 := by rw [hl]; rfl
    have hclose : openStep 1 r.kind = .ok 0 := by rw [hr]; rfl
    calc openAfter 0 (l :: ((ρ ++ [r]) ++ σ))
        = openAfter 1 (ρ ++ r :: σ) := by
          rw [openAfter_cons, hopen, List.append_assoc]; rfl
      _ = openAfter 1 (r :: σ) := by rw [openAfter_append, openAfter_balanced hρ]; rfl
      _ = openAfter 0 σ := by rw [openAfter_cons, hclose]; rfl
      _ = .ok 0 := ih

/-- One step of the look. -/
theorem run_brackets_cons {t : Token} {e : Cursor} (hn : c.next = .ok (t, e))
    (ht : t.kind ≠ .eof) (fuel depth : Nat) (s : ReadState) :
    (bracketsThenEquals (fuel + 1) depth c).run.run s =
      match openStep depth t.kind with
      | .ok k => (bracketsThenEquals fuel k e).run.run { s with reach := max s.reach t.stop }
      | .error b => (.ok b, { s with reach := max s.reach t.stop }) := by
  cases depth <;>
  · rw [bracketsThenEquals, run_bind, run_look hn]
    dsimp only
    generalize t.kind = k at ht ⊢
    cases k <;> first | rfl | contradiction

/-- **The look goes along tokens as `openAfter` does**, and no farther than they end. -/
theorem run_brackets (h : c.Reads τ d) : ∀ (fuel depth : Nat) (s : ReadState),
    ∃ r, r ≤ d.offset ∧ (bracketsThenEquals (τ.length + fuel) depth c).run.run s =
      match openAfter depth τ with
      | .ok k => (bracketsThenEquals fuel k d).run.run { s with reach := max s.reach r }
      | .error b => (.ok b, { s with reach := max s.reach r }) := by
  induction h with
  | nil =>
    intro fuel depth s
    refine ⟨0, Nat.zero_le _, ?_⟩
    rw [List.length_nil, Nat.zero_add, Nat.max_zero]
    rfl
  | @cons c e d t τ hn ht hr ih =>
    intro fuel depth s
    have hstop : t.stop ≤ d.offset := (Cursor.Reads.cons hn ht hr).stop_le
    rw [List.length_cons, Nat.add_right_comm, run_brackets_cons hn ht, openAfter_cons]
    cases openStep depth t.kind with
    | error b => exact ⟨t.stop, hstop, rfl⟩
    | ok k =>
      obtain ⟨r, hle, hrun⟩ := ih fuel k { s with reach := max s.reach t.stop }
      refine ⟨max t.stop r, Nat.max_le.mpr ⟨hstop, hle⟩, ?_⟩
      rw [← Nat.max_assoc]
      exact hrun

/-- Behind the last index the look answers. -/
theorem run_brackets_end {t : Token} (h : d.Faces t) (ht : t.kind ≠ .lbracket) (fuel : Nat)
    (s : ReadState) : (bracketsThenEquals (fuel + 1) 0 d).run.run s =
      (.ok (t.kind == .equals), { s with reach := max s.reach t.stop }) := by
  obtain ⟨e, hn⟩ := h
  rw [bracketsThenEquals, run_bind, run_look hn]
  dsimp only
  split
  · next hk => exact absurd hk ht
  · next hk => rw [hk]; rfl
  · next hk =>
    rw [beq_eq_false_iff_ne.mpr hk]
    rfl

theorem cellFollows_eq (s : ReadState) : cellFollows.run.run s =
    (TokenSource.look s.cursor >>= fun x => bracketsThenEquals s.bound 0 x.2 : Reader Bool).run.run
      s := rfl

/-- **Whether a cell is assigned to is seen behind the indices**, and nothing behind the
token there is looked at. -/
theorem run_cellFollows {R : Phrase Expr} {t u : Token} {gs : List (Location × List Expr)}
    {s : ReadState} (hR : ∀ {σ e}, R σ e → Balanced σ) (hs : Ready s)
    (hr : s.cursor.Reads (t :: τ) d) (hg : IsIndexGroups R τ gs) (hu : d.Faces u)
    (hne : u.kind ≠ .lbracket) :
    ∃ r, r ≤ max d.offset u.stop ∧ cellFollows.run.run s =
      (.ok (u.kind == .equals), { s with reach := max s.reach r }) := by
  obtain ⟨e, hn, ht, h1⟩ := hr.exists_next
  obtain ⟨fuel, hfuel⟩ : ∃ fuel, s.bound = τ.length + (fuel + 1) := by
    have hlen := hr.length_le
    rw [List.length_cons] at hlen
    unfold Ready at hs
    exact ⟨s.bound - τ.length - 1, by omega⟩
  obtain ⟨r, hle, hrun⟩ := run_brackets h1 (fuel + 1) 0 { s with reach := max s.reach t.stop }
  rw [openAfter_indexGroups hR hg, ← hfuel] at hrun
  have hstop := hr.stop_le
  refine ⟨max (max t.stop r) u.stop, by omega, ?_⟩
  rw [cellFollows_eq, run_bind, run_look hn]
  dsimp only
  rw [hrun]
  dsimp only
  rw [run_brackets_end hu hne]
  simp only [Nat.max_assoc]

theorem arrives_cellFollows {R : Phrase Expr} {t : Token} {gs : List (Location × List Expr)}
    {s : ReadState} {b : Bool} (hR : ∀ {σ e}, R σ e → Balanced σ) (h : At s (t :: (τ ++ σ)) c)
    (hg : IsIndexGroups R τ gs) (hp : Follow c (fun k => k ≠ .lbracket ∧ (k == .equals) = b) σ) :
    Arrives P cellFollows s [] b := by
  obtain ⟨d, h1, h2⟩ := At.take (τ := t :: τ) h
  obtain ⟨u, hu, hne, rfl⟩ := hp.faces h2
  obtain ⟨r, -, hrun⟩ := run_cellFollows hR h.ready h1.reads hg hu hne
  exact .inl ⟨_, hrun, .reach s _⟩

/-! ## How far the look may go -/

theorem look_bind_congr {c : Cursor} {k k' : Token × Cursor → Reader α}
    (h : ∀ x, c.next = .ok x → k x = k' x) :
    (TokenSource.look c >>= k : Reader α) = TokenSource.look c >>= k' := by
  funext s
  show (look c >>= k).run.run s = (look c >>= k').run.run s
  rw [run_bind, run_bind]
  unfold look
  cases hn : c.next with
  | error f => rfl
  | ok x =>
    show (k x).run.run _ = (k' x).run.run _
    rw [h x hn]

/-- The look does not come to its bound. -/
theorem bracketsThenEquals_congr : ∀ (n m depth : Nat) (c : Cursor), c.rest.length < n →
    c.rest.length < m →
    (bracketsThenEquals n depth c : Reader Bool) = bracketsThenEquals m depth c := by
  intro n
  induction n with
  | zero => exact fun _ _ _ h _ => absurd h (Nat.not_lt_zero _)
  | succ n ih =>
    intro m depth c hn hm
    obtain ⟨m, rfl⟩ : ∃ k, m = k + 1 := ⟨m - 1, by omega⟩
    -- every token that the look goes past takes a byte
    have hpast {t : Token} {d : Cursor} (h : c.next = .ok (t, d)) (ht : t.kind ≠ .eof)
        (depth : Nat) :
        (bracketsThenEquals n depth d : Reader Bool) = bracketsThenEquals m depth d := by
      have hd := (Cursor.length_of_next h).2 ht
      exact ih m depth d (by omega) (by omega)
    cases depth with
    | zero =>
      rw [bracketsThenEquals, bracketsThenEquals]
      refine look_bind_congr fun x h => ?_
      obtain ⟨t, d⟩ := x
      dsimp only
      split
      · next ht => exact hpast h (by rw [ht]; decide) 1
      · rfl
      · rfl
    | succ depth =>
      rw [bracketsThenEquals, bracketsThenEquals]
      refine look_bind_congr fun x h => ?_
      obtain ⟨t, d⟩ := x
      dsimp only
      split
      · rfl
      · next ht => exact hpast h (by rw [ht]; decide) _
      · next ht => exact hpast h (by rw [ht]; decide) _
      · next ht _ _ => exact hpast h ht _

/-- A bound above the number of tokens that are left makes no difference. -/
theorem run_cellFollows_of_le {s : ReadState} {n : Nat} (hs : Ready s) (hn : s.bound ≤ n) :
    cellFollows.run.run s
      = (TokenSource.look s.cursor >>= fun x => bracketsThenEquals n 0 x.2 : Reader Bool).run.run
        s := by
  rw [cellFollows_eq]
  refine congrArg (fun m : Reader Bool => m.run.run s) (look_bind_congr fun x h => ?_)
  have hd := (Cursor.length_of_next h).1
  have hs : s.cursor.rest.length < s.bound := hs
  exact bracketsThenEquals_congr _ _ 0 x.2 (by omega) (by omega)

/-- Looking takes nothing. -/
theorem gives_brackets : ∀ {fuel depth : Nat} {c : Cursor} {s s' : ReadState} {b : Bool},
    Gives (bracketsThenEquals fuel depth c) s b s' → Consumes s [] s' := by
  intro fuel
  induction fuel with
  | zero =>
    intro depth c s s' b h
    cases depth <;> · obtain ⟨-, rfl⟩ := gives_pure.mp h; exact .refl _
  | succ fuel ih =>
    intro depth c s s' b h
    cases depth with
    | zero =>
      obtain ⟨x, s₁, h1, h⟩ := gives_bind.mp h
      obtain ⟨-, rfl⟩ := gives_look.mp h1
      simp only at h
      split at h
      · exact (Consumes.reach s _).trans (ih h)
      · obtain ⟨-, rfl⟩ := gives_pure.mp h
        exact .reach s _
      · obtain ⟨-, rfl⟩ := gives_pure.mp h
        exact .reach s _
    | succ depth =>
      obtain ⟨x, s₁, h1, h⟩ := gives_bind.mp h
      obtain ⟨-, rfl⟩ := gives_look.mp h1
      simp only at h
      split at h
      · obtain ⟨-, rfl⟩ := gives_pure.mp h
        exact .reach s _
      · exact (Consumes.reach s _).trans (ih h)
      · exact (Consumes.reach s _).trans (ih h)
      · exact (Consumes.reach s _).trans (ih h)

theorem gives_cellFollows {s s' : ReadState} {b : Bool} (h : Gives cellFollows s b s') :
    Consumes s [] s' := by
  obtain ⟨_, _, h1, h2⟩ := gives_bind.mp h
  obtain ⟨rfl, rfl⟩ := gives_get.mp h1
  obtain ⟨x, _, h3, h4⟩ := gives_bind.mp h2
  obtain ⟨-, rfl⟩ := gives_look.mp h3
  exact (Consumes.reach _ _).trans (gives_brackets h4)

/-! ## Expressions in statements -/

/-- The readers `expr w` read the expressions `R w`, in which brackets balance; an
expression that begins with a name and a bracket is that name with indices. -/
structure ReadsExprs (P : Token → ParseFault → Prop) (expr : Nat → Reader Expr)
    (R : Nat → Phrase Expr) : Prop where
  reads : ∀ w, ReadsExpr P (expr w) (R w)
  balanced : ∀ {w τ e}, R w τ e → Balanced τ
  indices_of : ∀ {w t τ e}, t.kind = .ident → (∀ u ∈ τ.head?, u.kind = .lbracket) →
    R w (t :: τ) e → ∃ gs, IsIndexGroups (R (w + 1 + Weight.index)) τ gs ∧
      e = indexed (.name t.location t.text) gs
  of_indices : ∀ {w t τ gs σ e}, R w σ e → t.kind = .ident →
    IsIndexGroups (R (w + 1 + Weight.index)) τ gs →
    R w (t :: τ) (indexed (.name t.location t.text) gs)

theorem name_of_primary {R : Nat → Phrase Expr} {t : Token} {e : Expr} (ht : t.kind = .ident)
    (h : IsPrimary fits R [t] e) : e = .name t.location t.text := by
  generalize hρ : [t] = ρ at h
  cases h with
  | name hk => obtain rfl := List.singleton_inj.mp hρ; rfl
  | group h => cases h; simp at hρ
  | call => simp at hρ
  | number hk => obtain rfl := List.singleton_inj.mp hρ; rw [ht] at hk; cases hk
  | float hk => obtain rfl := List.singleton_inj.mp hρ; rw [ht] at hk; cases hk
  | string hk => obtain rfl := List.singleton_inj.mp hρ; rw [ht] at hk; cases hk
  | tensor hk => obtain rfl := (List.cons.inj hρ).1; rw [ht] at hk; cases hk

theorem exists_indices {R : Nat → Phrase Expr} {S : Phrase Expr} {t : Token} {e : Expr}
    (ht : t.kind = .ident) (hu : ∀ u ∈ τ.head?, u.kind = .lbracket)
    (h : IsExpression (IsPrimary fits R) S (t :: τ) e) :
    ∃ gs, IsIndexGroups S τ gs ∧ e = indexed (.name t.location t.text) gs := by
  generalize hρ : t :: τ = ρ at h
  cases h with
  | @mk τ₁ σ head gs hp hg =>
    obtain ⟨v, τ₂, rfl, -, hv⟩ := primary_shape hp
    obtain ⟨rfl, rfl⟩ := List.cons.inj hρ
    cases τ₂ with
    | nil => exact ⟨gs, hg, by rw [name_of_primary ht hp]⟩
    | cons w τ₂ =>
      have h1 := hv ht w rfl
      rw [hu w rfl] at h1
      cases h1

theorem readsExprs_within
    (hfit : ∀ {text}, FitsDigits text → fits text)
    (hfits : ∀ {t : Token}, t.kind = .number → fits t.text → FitsDigits t.text ∨
      P t (.literalTooLong (digitCount t.text))) (n : Nat) :
    ReadsExprs P (expression n) (ExprWithin fits n) := by
  -- an expression takes a level itself, and its indices another one
  have hlevel : ∀ {w σ e}, ExprWithin fits n w σ e → ∃ k, n = (k + 1) + w := by
    intro w σ e h
    induction w generalizing n with
    | zero =>
      cases n with
      | zero => exact h.elim
      | succ n => exact ⟨n, rfl⟩
    | succ w ih =>
      cases n with
      | zero => exact h.elim
      | succ n =>
        obtain ⟨k, rfl⟩ := ih n h
        exact ⟨k, rfl⟩
  have hexpr : ∀ k w, ExprWithin fits ((k + 1) + w) w = ExprWithin fits (k + 1) 0 := by
    intro k w
    have := exprWithin_add fits (k + 1) 0 w
    rwa [Nat.zero_add] at this
  have hindex : ∀ k w, ExprWithin fits ((k + 1) + w) (w + 1 + Weight.index) =
      ExprWithin fits k Weight.index := by
    intro k w
    have := exprWithin_add fits (k + 1) (1 + Weight.index) w
    rwa [Nat.add_comm (1 + Weight.index), ← Nat.add_assoc, Nat.add_comm 1] at this
  refine ⟨expression_reads_within hfit hfits n, fun h => balanced_within n h, ?_, ?_⟩
  · intro w t τ e ht hu h
    obtain ⟨k, rfl⟩ := hlevel h
    rw [hexpr] at h
    rw [hindex]
    exact exists_indices ht hu h
  · intro w t τ gs σ e h ht hg
    obtain ⟨k, rfl⟩ := hlevel h
    rw [hindex] at hg
    rw [hexpr]
    exact .mk (τ := [t]) (.name ht) hg

theorem readsExprs (hdeep : ∀ t, P t .tooDeep)
    (hlong : ∀ {t : Token}, t.kind = .number → ¬ FitsDigits t.text →
      P t (.literalTooLong (digitCount t.text))) (n : Nat) :
    ReadsExprs P (expression n) (fun _ => IsExpr) where
  reads := expression_reads hdeep hlong n
  balanced := balanced_isExpr
  indices_of ht hu h := exists_indices ht hu (isExpr_iff.mp h)
  of_indices _ ht hg := .mk (.mk (τ := [_]) (.name ht) hg)

end SpanScript.Reader
