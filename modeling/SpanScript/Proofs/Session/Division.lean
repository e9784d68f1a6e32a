import SpanScript.Proofs.Eval.Gives
import SpanScript.Proofs.Session.Elements
import Mathlib.Algebra.Order.Ring.Rat
import Mathlib.Data.Rat.Floor
import Mathlib.Tactic.Linarith
import Mathlib.Tactic.Positivity

/-!
# Quotient and remainder of integers

`DIV` goes toward zero, and `MOD` has the sign of the divisor: it is the remainder of the division
that goes down.  The two divisions are the same where the dividend is a multiple of the divisor or
both have one sign.  Elsewhere their quotients differ by one, and the product of the quotient with
the divisor, together with the remainder, is too large by the divisor.

* `tdiv_eq_truncation`, `fdiv_eq_floor`: the two quotients, as fractions.
* `natAbs_fmod_lt`: the bound of the remainder.
* `tdiv_mul_add_fmod`: when the two belong together.
* `Session.division`: the four functions, as they are called.
-/

namespace SpanScript

/-! ## Two divisions -/

/-- A number without its fraction. -/
def truncation (x : ℚ) : ℤ := if 0 ≤ x then ⌊x⌋ else ⌈x⌉

theorem truncation_neg (x : ℚ) : truncation (-x) = -truncation x := by
  unfold truncation
  rcases lt_trichotomy x 0 with hx | rfl | hx
  · rw [if_pos (by linarith), if_neg (by linarith), Int.floor_neg]
  · simp
  · rw [if_neg (by linarith), if_pos (by linarith), Int.ceil_neg]

theorem truncation_natCast_div (m n : ℕ) : truncation ((m : ℚ) / n) = m / n := by
  rw [truncation, if_pos (by positivity)]
  exact Rat.floor_intCast_div_natCast m n

/-- The quotient toward zero is the exact one without its fraction. -/
theorem tdiv_eq_truncation (a b : ℤ) : a.tdiv b = truncation ((a : ℚ) / b) := by
  obtain ⟨m, rfl | rfl⟩ := a.eq_nat_or_neg <;> obtain ⟨n, rfl | rfl⟩ := b.eq_nat_or_neg <;>
    simp [neg_div, div_neg, truncation_neg, truncation_natCast_div]

theorem fdiv_eq_floor (a b : ℤ) : a.fdiv b = ⌊(a : ℚ) / b⌋ := by
  obtain ⟨n, rfl | rfl⟩ := b.eq_nat_or_neg
  · rw [Int.fdiv_eq_ediv_of_nonneg _ (Int.natCast_nonneg n), Int.cast_natCast,
      Rat.floor_intCast_div_natCast]
  · rw [← neg_neg a, Int.neg_fdiv_neg, Int.fdiv_eq_ediv_of_nonneg _ (Int.natCast_nonneg n), neg_neg,
      ← Rat.floor_intCast_div_natCast]
    simp [neg_div, div_neg]

theorem natAbs_fmod_lt (a : ℤ) {b : ℤ} (hb : b ≠ 0) : (a.fmod b).natAbs < b.natAbs := by
  rcases lt_or_gt_of_ne hb with hneg | hpos
  · -- with both signs turned the divisor is positive
    have hpos : 0 < -b := by omega
    have hlt := Int.fmod_lt_of_pos (-a) hpos
    have hnonneg := Int.fmod_nonneg_of_pos (-a) hpos
    rw [Int.neg_fmod_neg] at hlt hnonneg
    omega
  · have hlt := Int.fmod_lt_of_pos a hpos
    have hnonneg := Int.fmod_nonneg_of_pos a hpos
    omega

/-- **When quotient and remainder belong together**: for a multiple of the divisor, and for numbers
of one sign.  Otherwise what they make is too large by the divisor. -/
theorem tdiv_mul_add_fmod (a : ℤ) {b : ℤ} (hb : b ≠ 0) :
    a.tdiv b * b + a.fmod b = if b ∣ a ∨ (0 < a ↔ 0 < b) then a else a + b := by
  have hdown : a.fmod b + b * a.fdiv b = a := Int.fmod_add_mul_fdiv a b
  by_cases hdvd : b ∣ a
  · rw [if_pos (.inl hdvd), Int.tdiv_eq_fdiv, if_pos hdvd, add_zero, mul_comm]
    omega
  · have ha : a ≠ 0 := fun ha => hdvd (ha ▸ dvd_zero b)
    by_cases hsign : 0 < a ↔ 0 < b
    · have hsame : a.tdiv b = a.fdiv b := by
        rw [Int.tdiv_eq_fdiv, if_neg hdvd]
        by_cases hpos : 0 ≤ a
        · have hbpos : 0 ≤ b := by omega
          rw [if_pos hpos, if_pos hbpos, add_zero]
        · have hbneg : ¬ 0 ≤ b := by omega
          rw [if_neg hpos, if_neg hbneg, Int.sign_eq_neg_one_of_neg (by omega)]
          omega
      rw [if_pos (.inr hsign), hsame, mul_comm]
      omega
    · have hnext : a.tdiv b = a.fdiv b + 1 := by
        rw [Int.tdiv_eq_fdiv, if_neg hdvd]
        by_cases hpos : 0 ≤ a
        · have hbneg : ¬ 0 ≤ b := by omega
          rw [if_pos hpos, if_neg hbneg]
        · have hbpos : 0 < b := by omega
          rw [if_neg hpos, if_pos (by omega), Int.sign_eq_one_of_pos hbpos]
      rw [if_neg (not_or.mpr ⟨hdvd, hsign⟩), hnext, Int.add_mul, one_mul, mul_comm]
      omega

/-! ## The calls -/

namespace Store

variable {s : Store} {chain : Chain} {e f : Expr} {a b c : Int} {k : Nat} {loc : Location}

/-- A call of a function of two integers gives its result. -/
theorem gives_integers (hu : s.Unshadowed) (op : Builtin) (hop : op.takesName = false)
    (hone : ∀ readable, op.apply readable loc [.int a, .int b]
      = Run.orFail loc (Builtin.binary op (.int a) (.int b)))
    (hresult : Builtin.binary op (.int a) (.int b) = .ok (.int c))
    (he : s.Gives chain e (.int a) k) (hf : s.Gives chain f (.int b) k) :
    s.Gives chain (.call loc op.name [.positional e, .positional f]) (.int c) (k + 2) := by
  refine gives_call hu op hop [e, f] (.cons he (.cons hf .nil)) fun readable => ?_
  rw [hone, hresult]
  rfl

theorem gives_add (hu : s.Unshadowed) (he : s.Gives chain e (.int a) k)
    (hf : s.Gives chain f (.int b) k) :
    s.Gives chain (.call loc "ADD" [.positional e, .positional f]) (.int (a + b)) (k + 2) :=
  gives_integers hu .add rfl (fun _ => rfl) rfl he hf

theorem gives_mul (hu : s.Unshadowed) (he : s.Gives chain e (.int a) k)
    (hf : s.Gives chain f (.int b) k) :
    s.Gives chain (.call loc "MUL" [.positional e, .positional f]) (.int (a * b)) (k + 2) :=
  gives_integers hu .mul rfl (fun _ => rfl) rfl he hf

/-- `DIV` goes toward zero. -/
theorem gives_div (hu : s.Unshadowed) (he : s.Gives chain e (.int a) k)
    (hf : s.Gives chain f (.int b) k) (hb : b ≠ 0) :
    s.Gives chain (.call loc "DIV" [.positional e, .positional f]) (.int (a.tdiv b)) (k + 2) := by
  refine gives_integers hu .div rfl (fun _ => rfl) ?_ he hf
  show (Builtin.divideInt a b).map Value.int = _
  rw [Builtin.divideInt, if_neg hb]
  rfl

/-- `MOD` belongs to the division that goes down. -/
theorem gives_mod (hu : s.Unshadowed) (he : s.Gives chain e (.int a) k)
    (hf : s.Gives chain f (.int b) k) (hb : b ≠ 0) :
    s.Gives chain (.call loc "MOD" [.positional e, .positional f]) (.int (a.fmod b)) (k + 2) := by
  refine gives_integers hu .mod rfl (fun _ => rfl) ?_ he hf
  show (Builtin.remainderInt a b).map Value.int = _
  rw [Builtin.remainderInt, if_neg hb]
  rfl

end Store

namespace Session

/-- **`DIV` and `MOD` of integers**, and what they make together.

In a session that can come about, and wherever any of its statements evaluates, executes or calls
anything, no function has the name of a built-in one.  In such a store let two expressions give the
integers `a` and `b`, which is not zero.  `DIV` of them gives the exact quotient without its
fraction.  `MOD` gives the remainder of the quotient that is rounded down, which is smaller than
the divisor, signs aside.  The product of `DIV` with the divisor and `MOD` added up give the
dividend if it is a multiple of the divisor or the two have one sign, and else they give the
dividend and the divisor added up. -/
theorem division {session : Session} (hs : session.Reachable) :
    (session.store.Unshadowed ∧ session.Passes fun t u => t.Unshadowed ∧ u.Unshadowed) ∧
    ∀ s : Store, s.Unshadowed → ∀ chain (a b : Int), b ≠ 0 → ∀ e f k,
      s.Gives chain e (.int a) k → s.Gives chain f (.int b) k → ∀ loc₁ loc₂ loc₃ loc₄,
      let quotient := Expr.call loc₁ "DIV" [.positional e, .positional f]
      let remainder := Expr.call loc₂ "MOD" [.positional e, .positional f]
      let product := Expr.call loc₃ "MUL" [.positional quotient, .positional f]
      let sum := Expr.call loc₄ "ADD" [.positional product, .positional remainder]
      s.Gives chain quotient (.int (truncation ((a : ℚ) / b))) (k + 2) ∧
      s.Gives chain remainder (.int (a - b * ⌊(a : ℚ) / b⌋)) (k + 2) ∧
      (a - b * ⌊(a : ℚ) / b⌋).natAbs < b.natAbs ∧
      s.Gives chain sum (.int (if b ∣ a ∨ (0 < a ↔ 0 < b) then a else a + b)) (k + 6) := by
  have hunshadowed : session.store.Unshadowed := hs.apart.unshadowed
  refine ⟨⟨hunshadowed, passes_of_invariant Store.invariant_unshadowed (fun _ h => h) hunshadowed
    fun _ _ ht hu => ⟨ht, hu⟩⟩, ?_⟩
  intro s hu chain a b hb e f k he hf loc₁ loc₂ loc₃ loc₄ quotient remainder product sum
  have hquotient : s.Gives chain quotient (.int (a.tdiv b)) (k + 2) := Store.gives_div hu he hf hb
  have hremainder : s.Gives chain remainder (.int (a.fmod b)) (k + 2) :=
    Store.gives_mod hu he hf hb
  have hproduct : s.Gives chain product (.int (a.tdiv b * b)) (k + 4) :=
    Store.gives_mul hu hquotient (hf.mono (by omega))
  have hsum : s.Gives chain sum (.int (a.tdiv b * b + a.fmod b)) (k + 6) :=
    Store.gives_add hu hproduct (hremainder.mono (by omega))
  rw [tdiv_mul_add_fmod a hb] at hsum
  rw [← tdiv_eq_truncation, ← fdiv_eq_floor, ← Int.fmod_def]
  exact ⟨hquotient, hremainder, natAbs_fmod_lt a hb, hsum⟩

/-- `DIV(-7, -2)` gives `3`, `MOD(-7, -2)` gives `-1`, and `ADD(MUL(DIV(-7, -2), -2), MOD(-7, -2))`
gives `-7`. -/
theorem division_negative :
    let integer (n : Int) : Expr := .literal ⟨1, 1⟩ (.int n)
    let call (name : String) (e f : Expr) : Expr :=
      .call ⟨1, 1⟩ name [.positional e, .positional f]
    let quotient := call "DIV" (integer (-7)) (integer (-2))
    let remainder := call "MOD" (integer (-7)) (integer (-2))
    let sum := call "ADD" (call "MUL" quotient (integer (-2))) remainder
    let s := (start "t").store
    s.Gives Store.globalChain quotient (.int 3) 3 ∧
    s.Gives Store.globalChain remainder (.int (-1)) 3 ∧
    s.Gives Store.globalChain sum (.int (-7)) 7 := by
  intro integer call quotient remainder sum s
  obtain ⟨⟨hu, -⟩, hall⟩ := division (reachable_start "t")
  obtain ⟨hquotient, hremainder, -, hsum⟩ := hall s hu Store.globalChain (-7) (-2) (by decide) _ _ 1
    (Store.gives_literal s _ ⟨1, 1⟩ (.int (-7))) (Store.gives_literal s _ ⟨1, 1⟩ (.int (-2)))
    ⟨1, 1⟩ ⟨1, 1⟩ ⟨1, 1⟩ ⟨1, 1⟩
  rw [← tdiv_eq_truncation] at hquotient
  rw [← fdiv_eq_floor] at hremainder
  rw [if_pos (.inr (by decide))] at hsum
  exact ⟨hquotient, hremainder, hsum⟩

/-- After `INT: r = ADD(MUL(DIV(-7, 2), 2), MOD(-7, 2))` the variable `r` is `-5`. -/
theorem division_apart :
    let integer (n : Int) : Expr := .literal ⟨1, 1⟩ (.int n)
    let call (name : String) (e f : Expr) : Expr :=
      .call ⟨1, 1⟩ name [.positional e, .positional f]
    let quotient := call "DIV" (integer (-7)) (integer 2)
    let remainder := call "MOD" (integer (-7)) (integer 2)
    let sum := call "ADD" (call "MUL" quotient (integer 2)) remainder
    ((start "t").after (.assign ⟨1, 1⟩ "r" sum (some "INT"))).store.get? Store.globalChain "r"
      = some (.int (-5)) := by
  rfl

end Session

end SpanScript
