import SpanScript.Proofs.Eval.Cells
import SpanScript.Proofs.Eval.Quiet
import Mathlib.Data.List.Forall2

/-!
# Expressions that give a value

An expression gives a value in a store if it evaluates to that value, and leaves the store as it
is, whenever so many levels are left.  Literals do, and so does a call of a built-in function whose
arguments do, if the function only reads.

* `Store.Gives`, with `Gives.mono`.
* `gives_literal`: one level is enough.
* `gives_call`: two levels more than the arguments.
-/

namespace SpanScript

open Run

namespace Store

variable {s : Store} {chain : Chain} {e : Expr} {v r : Value} {least more : Nat}

/-- With so many levels left, or more, an expression evaluates to a value and leaves the store as
it is. -/
def Gives (s : Store) (chain : Chain) (e : Expr) (v : Value) (least : Nat) : Prop :=
  ∀ turns levels, least ≤ levels → ((machine turns levels).eval chain e).run.run s = (.ok v, s)

theorem Gives.mono (h : s.Gives chain e v least) (hmore : least ≤ more) :
    s.Gives chain e v more :=
  fun turns levels hlevels => h turns levels (Nat.le_trans hmore hlevels)

theorem gives_literal (s : Store) (chain : Chain) (place : Location) (l : Literal) :
    s.Gives chain (.literal place l) (Machine.literal l) 1 := by
  intro turns levels hlevels
  cases levels with
  | zero => omega
  | succ levels => rfl

/-- Positional arguments that give values are collected, in order. -/
theorem run_arguments_of_gives {turns levels : Nat} (hlevels : least ≤ levels) (loc : Location)
    {es : List Expr} {vs : List Value}
    (hargs : List.Forall₂ (fun e v => s.Gives chain e v least) es vs) :
    ∀ before : List Value,
      ((machine turns levels).arguments chain loc (es.map .positional) ⟨before, []⟩).run.run s
        = (.ok ⟨before ++ vs, []⟩, s) := by
  induction hargs with
  | nil =>
    intro before
    rw [List.append_nil]
    rfl
  | @cons e v es vs hv _ ih =>
    intro before
    rw [List.map_cons, Machine.arguments, run_bind, hv turns levels hlevels]
    show ((machine turns levels).arguments chain loc (es.map .positional)
      ⟨before ++ [v], []⟩).run.run s = _
    rw [ih, List.append_assoc]
    rfl

/-- **A built-in function that only reads gives its answer**, where its arguments give their
values. -/
theorem gives_call (hu : s.Unshadowed) (op : Builtin) (hop : op.takesName = false)
    (es : List Expr) {vs : List Value}
    (hargs : List.Forall₂ (fun e v => s.Gives chain e v least) es vs)
    {loc : Location} (happly : ∀ readable, (op.apply readable loc vs).run.run s = (.ok r, s)) :
    s.Gives chain (.call loc op.name (es.map .positional)) r (least + 2) := by
  intro turns levels hlevels
  obtain ⟨levels, rfl⟩ : ∃ k, levels = k + 1 := ⟨levels - 1, by omega⟩
  have hnone : (some op).filter Builtin.takesName = none := by
    rw [Option.filter_some, hop]
    rfl
  rw [eval_machine, Machine.evalRule, Machine.call, Builtin.ofName?_name]
  simp only [hnone]
  rw [under_machine, run_bind, run_arguments_of_gives (by show least ≤ levels - 1; omega) loc hargs]
  simp only [run_get, hu op]
  exact happly _

end Store

end SpanScript
