import SpanScript.Proofs.Eval.Accord
import SpanScript.Proofs.Eval.Open

/-!
# Guarded machines

A guarded machine does what the machines of the language do, and looks at the stores
before and after each expression it evaluates, each statement it executes and each
function it calls.  Where the two are not in a given relation it halts in a given way.
No rule goes on after a halt, so a guarded run that ends as the run without guards, and
does so whichever the halt is, has found the relation wherever it looked.

* `Run.guarded`: one guarded run.
* `guardedMachine`: the machines of the language with their guards.
* `agreeAt_guarded`: runs in accord pass every guard that asks for what the accord keeps.
-/

namespace SpanScript

section

variable (p : Store → Store → Prop) [DecidableRel p] (h : Halt)

/-- Runs something, and halts with `h` unless the store before it and the store after it
are in relation. -/
def Run.guarded {α : Type} (m : Run α) : Run α := ExceptT.mk do
  let before ← get
  let x ← m.run
  let after ← get
  pure (if p before after then x else .error h)

/-- The rule of expressions, with calls of functions of the program guarded. -/
def Machine.evalGuarded (m : Machine) (chain : Chain) (e : Expr) : Run Value :=
  match e with
  | .call loc callee args =>
    m.callBy (fun loc name f given => Run.guarded p h (m.callDefined loc name f given))
      chain loc callee args
  | e => m.evalRule chain e

theorem Machine.evalGuarded_eq (m : Machine) :
    m.evalGuarded p h = m.evalBy fun loc name f given =>
      Run.guarded p h (m.callDefined loc name f given) := by
  funext chain e
  cases e <;> rfl

/-- The machine of a number of levels, with every expression, every statement and every
function guarded. -/
def guardedMachine (turns : Nat) : Nat → Machine
  | 0 => .bottom
  | levels + 1 =>
    { levels
      evalUnder := fun extra chain e =>
        match extra with
        | 0 => Run.guarded p h ((guardedMachine turns levels).evalGuarded p h chain e)
        | extra + 1 => (guardedMachine turns levels).evalUnder extra chain e
      execUnder := fun extra chain s =>
        match extra with
        | 0 => Run.guarded p h ((guardedMachine turns levels).execRule turns chain s)
        | extra + 1 => (guardedMachine turns levels).execUnder extra chain s }

end

namespace Run

variable {α : Type} {A : Accord} {p : Store → Store → Prop} [DecidableRel p] {s t : Store}
  {Q : Store → α → Prop} {m m' : Run α}

theorem run_guarded (h : Halt) (m : Run α) (s : Store) :
    (guarded p h m).run.run s
      = if p s (m.run.run s).2 then m.run.run s else (.error h, (m.run.run s).2) := by
  have hrun : (guarded p h m).run.run s
      = (if p s (m.run.run s).2 then (m.run.run s).1 else .error h, (m.run.run s).2) := rfl
  rw [hrun]
  split <;> rfl

/-- **A run in accord with another one passes every guard** that asks for what the accord
keeps. -/
theorem agreeAt_guarded (h : Halt) (hm : A.AgreeAt Q m m' s t)
    (hp : ∀ u v, A.Later s u → A.Related u v → p t v) :
    A.AgreeAt Q m (guarded p h m') s t := by
  unfold Accord.AgreeAt at hm ⊢
  rw [run_guarded]
  generalize m.run.run s = x at hm ⊢
  generalize m'.run.run t = y at hm ⊢
  cases hm with
  | answer hu hr ha =>
    rw [if_pos (hp _ _ hu hr)]
    exact .answer hu hr ha
  | halt hu hr hh =>
    rw [if_pos (hp _ _ hu hr)]
    exact .halt hu hr hh
  | excepted hx => exact .excepted hx

end Run

end SpanScript
