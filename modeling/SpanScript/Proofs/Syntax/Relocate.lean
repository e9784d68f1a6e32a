import SpanScript.Syntax
import SpanScript.Syntax.Problem

/-!
# The same tree with other places

`relocate f` puts every place of a tree where `f` says.  `Location.forget` makes one
place of all places, so two trees that become one tree by it differ in nothing but
their places.

Everything that looks at a tree and not at its places commutes with `relocate`.
There is one lemma for each function that does.
-/

namespace SpanScript

/-- All places are one place. -/
def Location.forget (_ : Location) : Location := .first

/-! ## Trees -/

mutual

def Expr.relocate (f : Location → Location) : Expr → Expr
  | .literal loc value => .literal (f loc) value
  | .tensor loc items => .tensor (f loc) (items.map (Expr.relocate f))
  | .index loc base indices => .index (f loc) (base.relocate f) (indices.map (Expr.relocate f))
  | .name loc name => .name (f loc) name
  | .call loc callee args => .call (f loc) callee (args.map (Argument.relocate f))

def Argument.relocate (f : Location → Location) : Argument → Argument
  | .positional value => .positional (value.relocate f)
  | .keyword name value => .keyword name (value.relocate f)

end

def Param.relocate (f : Location → Location) (p : Param) : Param :=
  { p with default := p.default.map (Expr.relocate f) }

mutual

def Stmt.relocate (f : Location → Location) : Stmt → Stmt
  | .assign loc target value declared => .assign (f loc) target (value.relocate f) declared
  | .assignCell loc target value => .assignCell (f loc) (target.relocate f) (value.relocate f)
  | .evaluate value => .evaluate (value.relocate f)
  | .ifElse loc branches none => .ifElse (f loc) (branches.map (Branch.relocate f)) none
  | .ifElse loc branches (some block) =>
    .ifElse (f loc) (branches.map (Branch.relocate f)) (some (block.relocate f))
  | .whileLoop loc test body => .whileLoop (f loc) (test.relocate f) (body.relocate f)
  | .forLoop loc counter limit body =>
    .forLoop (f loc) counter (limit.relocate f) (body.relocate f)
  | .define loc name params returns body =>
    .define (f loc) name (params.map (Param.relocate f)) returns (body.relocate f)
  | .returnValue loc value => .returnValue (f loc) (value.map (Expr.relocate f))
  | .breakLoops loc count => .breakLoops (f loc) (count.relocate f)
  | .continueLoop loc => .continueLoop (f loc)
termination_by s => sizeOf s
decreasing_by
  -- the order on sizes must not be turned into `≤` before the list is taken apart
  all_goals
    try have := List.sizeOf_lt_of_mem ‹_ ∈ branches›
    simp only [Stmt.ifElse.sizeOf_spec, Stmt.whileLoop.sizeOf_spec, Stmt.forLoop.sizeOf_spec,
      Stmt.define.sizeOf_spec, Option.some.sizeOf_spec]
    omega

def Block.relocate (f : Location → Location) : Block → Block
  | .mk loc statements => .mk (f loc) (statements.map (Stmt.relocate f))
termination_by b => sizeOf b

def Branch.relocate (f : Location → Location) : Branch → Branch
  | .mk test block => .mk (test.relocate f) (block.relocate f)
termination_by b => sizeOf b

end

def ParseFault.relocate (f : Location → Location) : ParseFault → ParseFault
  | .located problem loc => .located problem (f loc)
  | .tooDeep => .tooDeep
  | .literalTooLong n => .literalTooLong n

theorem ParseFault.relocate_id (x : ParseFault) : x.relocate id = x := by
  cases x <;> rfl

/-! ## What does not look at places -/

section

variable (f : Location → Location)

theorem Expr.location_relocate (e : Expr) : (e.relocate f).location = f e.location := by
  cases e <;> rw [Expr.relocate] <;> rfl

theorem Argument.value_relocate (a : Argument) :
    (a.relocate f).value = a.value.relocate f := by
  cases a <;> rw [Argument.relocate] <;> rfl

theorem Argument.name?_relocate (a : Argument) : (a.relocate f).name? = a.name? := by
  cases a <;> rw [Argument.relocate] <;> rfl

theorem Stmt.relocate_ifElse (loc : Location) (branches : List Branch)
    (otherwise : Option Block) :
    (Stmt.ifElse loc branches otherwise).relocate f
      = .ifElse (f loc) (branches.map (Branch.relocate f))
        (otherwise.map (Block.relocate f)) := by
  cases otherwise <;> rw [Stmt.relocate] <;> rfl

theorem Stmt.location_relocate (s : Stmt) : (s.relocate f).location = f s.location := by
  cases s with
  | evaluate value => rw [Stmt.relocate]; exact value.location_relocate f
  | ifElse loc branches otherwise => rw [Stmt.relocate_ifElse]; rfl
  | _ => rw [Stmt.relocate]; rfl

theorem Block.statements_relocate (b : Block) :
    (b.relocate f).statements = b.statements.map (Stmt.relocate f) := by
  cases b
  rw [Block.relocate]
  rfl

theorem Branch.test_relocate (b : Branch) : (b.relocate f).test = b.test.relocate f := by
  cases b
  rw [Branch.relocate]
  rfl

theorem Branch.block_relocate (b : Branch) : (b.relocate f).block = b.block.relocate f := by
  cases b
  rw [Branch.relocate]
  rfl

theorem Expr.indexChain_relocate (e : Expr) :
    (e.relocate f).indexChain
      = (e.indexChain.1.relocate f, e.indexChain.2.map (Expr.relocate f)) := by
  fun_induction Expr.indexChain e with
  | case1 loc base indices root outer h ih =>
    rw [h] at ih
    rw [Expr.relocate, Expr.indexChain, ih]
    simp only [List.map_append]
  | case2 e h =>
    cases e with
    | index loc base indices => exact absurd rfl (h loc base indices)
    | _ => rw [Expr.relocate]; rfl

end

/-! ## Places that stay -/

mutual

theorem Expr.relocate_id : ∀ e : Expr, e.relocate id = e
  | .literal loc value => by rw [Expr.relocate]; rfl
  | .name loc name => by rw [Expr.relocate]; rfl
  | .tensor loc items => by
    rw [Expr.relocate, List.map_congr_left fun e _ => e.relocate_id, List.map_id']
    rfl
  | .index loc base indices => by
    rw [Expr.relocate, base.relocate_id, List.map_congr_left fun e _ => e.relocate_id,
      List.map_id']
    rfl
  | .call loc callee args => by
    rw [Expr.relocate, List.map_congr_left fun a _ => a.relocate_id, List.map_id']
    rfl

theorem Argument.relocate_id : ∀ a : Argument, a.relocate id = a
  | .positional value => by rw [Argument.relocate, value.relocate_id]
  | .keyword name value => by rw [Argument.relocate, value.relocate_id]

end

theorem Param.relocate_id (p : Param) : p.relocate id = p := by
  obtain ⟨type, name, default⟩ := p
  cases default with
  | none => rfl
  | some e => rw [Param.relocate, Option.map_some, e.relocate_id]

mutual

theorem Stmt.relocate_id : ∀ s : Stmt, s.relocate id = s
  | .assign loc target value declared => by rw [Stmt.relocate, value.relocate_id]; rfl
  | .assignCell loc target value => by
    rw [Stmt.relocate, target.relocate_id, value.relocate_id]; rfl
  | .evaluate value => by rw [Stmt.relocate, value.relocate_id]
  | .ifElse loc branches none => by
    rw [Stmt.relocate, List.map_congr_left fun b _ => b.relocate_id, List.map_id']
    rfl
  | .ifElse loc branches (some block) => by
    rw [Stmt.relocate, List.map_congr_left fun b _ => b.relocate_id, List.map_id',
      block.relocate_id]
    rfl
  | .whileLoop loc test body => by rw [Stmt.relocate, test.relocate_id, body.relocate_id]; rfl
  | .forLoop loc counter limit body => by
    rw [Stmt.relocate, limit.relocate_id, body.relocate_id]; rfl
  | .define loc name params returns body => by
    rw [Stmt.relocate, List.map_congr_left fun p _ => p.relocate_id, List.map_id',
      body.relocate_id]
    rfl
  | .returnValue loc value => by
    rw [Stmt.relocate, funext Expr.relocate_id, Option.map_id']
    rfl
  | .breakLoops loc count => by rw [Stmt.relocate, count.relocate_id]; rfl
  | .continueLoop loc => by rw [Stmt.relocate]; rfl
termination_by s => sizeOf s
decreasing_by
  -- as for `Stmt.relocate`
  all_goals
    try have := List.sizeOf_lt_of_mem ‹_ ∈ branches›
    simp only [Stmt.ifElse.sizeOf_spec, Stmt.whileLoop.sizeOf_spec, Stmt.forLoop.sizeOf_spec,
      Stmt.define.sizeOf_spec, Option.some.sizeOf_spec]
    omega

theorem Block.relocate_id : ∀ b : Block, b.relocate id = b
  | .mk loc statements => by
    rw [Block.relocate, List.map_congr_left fun s _ => s.relocate_id, List.map_id']
    rfl
termination_by b => sizeOf b

theorem Branch.relocate_id : ∀ b : Branch, b.relocate id = b
  | .mk test block => by rw [Branch.relocate, test.relocate_id, block.relocate_id]
termination_by b => sizeOf b

end

end SpanScript
