import SpanScript.Store

/-!
# Calls in a tree

Which names a tree calls, at any depth: in arguments, items and indices, in tests and
blocks, and in the defaults and the bodies of the functions that are defined in it.

* `Expr.parts`, `Stmt.exprs`, `Stmt.parts`: what a tree is directly made of.
* `Expr.Calls`, `Stmt.Calls`, `Function.Calls`: a name is called somewhere.
-/

namespace SpanScript

/-- The expressions that an expression is directly made of. -/
def Expr.parts : Expr → List Expr
  | .literal _ _ | .name _ _ => []
  | .tensor _ items => items
  | .index _ base indices => base :: indices
  | .call _ _ args => args.map Argument.value

inductive Expr.Calls (x : String) : Expr → Prop
  | here {loc : Location} {args : List Argument} : Calls x (.call loc x args)
  | part {e e' : Expr} : e' ∈ e.parts → Calls x e' → Calls x e

/-- The expressions that a statement is directly made of. -/
def Stmt.exprs : Stmt → List Expr
  | .assign _ _ value _ => [value]
  | .assignCell _ target value => [target, value]
  | .evaluate value => [value]
  | .ifElse _ branches _ => branches.map Branch.test
  | .whileLoop _ test _ => [test]
  | .forLoop _ _ limit _ => [limit]
  | .define _ _ params _ _ => params.filterMap Param.default
  | .returnValue _ value => value.toList
  | .breakLoops _ count => [count]
  | .continueLoop _ => []

/-- The statements that a statement is directly made of. -/
def Stmt.parts : Stmt → List Stmt
  | .ifElse _ branches otherwise =>
    branches.flatMap (·.block.statements) ++ otherwise.toList.flatMap Block.statements
  | .whileLoop _ _ body | .forLoop _ _ _ body | .define _ _ _ _ body => body.statements
  | .assign .. | .assignCell .. | .evaluate _ | .returnValue .. | .breakLoops ..
  | .continueLoop _ => []

inductive Stmt.Calls (x : String) : Stmt → Prop
  | expr {s : Stmt} {e : Expr} : e ∈ s.exprs → e.Calls x → Calls x s
  | part {s s' : Stmt} : s' ∈ s.parts → Calls x s' → Calls x s

def Function.Calls (x : String) (f : Function) : Prop :=
  (∃ e ∈ f.params.filterMap Param.default, e.Calls x) ∨ ∃ s ∈ f.body.statements, s.Calls x

theorem Expr.not_calls {x : String} {e : Expr} (h : ∀ loc args, e ≠ .call loc x args)
    (hp : ∀ e' ∈ e.parts, ¬ e'.Calls x) : ¬ e.Calls x := by
  intro hc
  cases hc with
  | here => exact h _ _ rfl
  | part hmem hc => exact hp _ hmem hc

theorem Stmt.not_calls {x : String} {s : Stmt} (he : ∀ e ∈ s.exprs, ¬ e.Calls x)
    (hs : ∀ s' ∈ s.parts, ¬ s'.Calls x) : ¬ s.Calls x := by
  intro hc
  cases hc with
  | expr hmem hc => exact he _ hmem hc
  | part hmem hc => exact hs _ hmem hc

theorem Expr.indexChain_index (loc : Location) (base : Expr) (indices : List Expr) :
    (index loc base indices).indexChain
      = (base.indexChain.1, base.indexChain.2 ++ indices) := rfl

/-- What an index chain calls, the whole of it calls. -/
theorem Expr.Calls.of_indexChain {x : String} : ∀ e : Expr,
    (e.indexChain.1.Calls x → e.Calls x) ∧ ∀ i ∈ e.indexChain.2, i.Calls x → e.Calls x
  | .index loc base indices => by
    obtain ⟨hroot, houter⟩ := of_indexChain base
    have hbase : base.Calls x → (Expr.index loc base indices).Calls x :=
      .part (List.mem_cons_self ..)
    rw [indexChain_index]
    refine ⟨fun hc => hbase (hroot hc), fun i hi hc => ?_⟩
    rcases List.mem_append.mp hi with hi | hi
    · exact hbase (houter i hi hc)
    · exact .part (List.mem_cons_of_mem _ hi) hc
  | .literal _ _ | .tensor _ _ | .name _ _ | .call _ _ _ => ⟨id, nofun⟩

end SpanScript
