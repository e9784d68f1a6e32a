import SpanScript.Fault
import SpanScript.Proofs.Syntax.Calls

/-!
# The nodes of a tree

A statement has statements and expressions in it, at any depth: its nodes.  What a run can
say of a program is in them, since every fault is placed at a node and tells only names
that nodes have.

A `Material` is what programs may be made of: some expressions and statements, with all
their parts.  There are three of interest: everything, the nodes of some statements, and
the trees whose names are of some sort.

* `Expr.Node`, `Stmt.Node`, `Stmt.HasExpr`: the nodes of expressions and statements.
* `Stmt.HasPlace`: a place of a node.
* `Material.Blames`: the faults that a program of a material may end in.
-/

namespace SpanScript

/-! ## Nodes -/

/-- An expression is another one, or stands in it. -/
inductive Expr.Node : Expr → Expr → Prop
  | self {e : Expr} : Node e e
  | part {e e' n : Expr} : e' ∈ e.parts → Node e' n → Node e n

inductive Stmt.Node : Stmt → Stmt → Prop
  | self {s : Stmt} : Node s s
  | part {s s' n : Stmt} : s' ∈ s.parts → Node s' n → Node s n

def Stmt.HasExpr (s : Stmt) (e : Expr) : Prop :=
  ∃ n, s.Node n ∧ ∃ e' ∈ n.exprs, e'.Node e

/-- Some node of a statement is at a place. -/
def Stmt.HasPlace (s : Stmt) (loc : Location) : Prop :=
  (∃ n, s.Node n ∧ n.location = loc) ∨ ∃ e, s.HasExpr e ∧ e.location = loc

theorem Expr.Node.trans {e n n' : Expr} (h : e.Node n) (h' : n.Node n') : e.Node n' := by
  induction h with
  | self => exact h'
  | part hp _ ih => exact .part hp (ih h')

theorem Stmt.Node.trans {s n n' : Stmt} (h : s.Node n) (h' : n.Node n') : s.Node n' := by
  induction h with
  | self => exact h'
  | part hp _ ih => exact .part hp (ih h')

theorem Expr.Node.snoc {e n n' : Expr} (h : e.Node n) (h' : n' ∈ n.parts) : e.Node n' :=
  h.trans (.part h' .self)

theorem Stmt.Node.snoc {s n n' : Stmt} (h : s.Node n) (h' : n' ∈ n.parts) : s.Node n' :=
  h.trans (.part h' .self)

theorem Stmt.Node.hasExpr {s n : Stmt} (h : s.Node n) {e : Expr} (he : e ∈ n.exprs) :
    s.HasExpr e := ⟨n, h, e, he, .self⟩

theorem Stmt.HasExpr.snoc {s : Stmt} {e e' : Expr} (h : s.HasExpr e) (h' : e' ∈ e.parts) :
    s.HasExpr e' := by
  obtain ⟨n, hn, e₀, he₀, h₀⟩ := h
  exact ⟨n, hn, e₀, he₀, h₀.snoc h'⟩

/-! ## Names -/

/-- The names that a node of an expression has itself. -/
def Expr.names : Expr → List String
  | .name _ x => [x]
  | .call _ callee args => callee :: args.filterMap Argument.name?
  | .literal .. | .tensor .. | .index .. => []

/-- The names that a node of a statement has itself, types included. -/
def Stmt.names : Stmt → List String
  | .assign _ x _ declared => x :: declared.toList
  | .forLoop _ x _ _ => [x]
  | .define _ name params returns _ =>
    name :: returns :: params.flatMap fun p => [p.name, p.type]
  | .assignCell .. | .evaluate .. | .ifElse .. | .whileLoop .. | .returnValue ..
  | .breakLoops .. | .continueLoop .. => []

/-- The names that a fault tells: of variables, functions and types of a program, or of a rule
that needs an integer. -/
def Fault.names : Fault → List String
  | .undefined x | .undeclared x | .redeclared x _ | .assignedMismatch x _ _
  | .nameOfFunction x | .nameOfBuiltin x | .cannotDelete x | .mustReturnTensor x
  | .unknownFunction x | .noKeywords x | .duplicateKeyword x | .declarationMismatch _ x
  | .tooManyPositional x _ _ | .notInteger x => [x]
  | .returnMismatch x type _ | .missingArgument x type | .argumentMismatch x type _ => [x, type]
  | .unexpectedKeywords xs => xs
  | _ => []

/-- A fault that says nothing of a program but the place. -/
def Fault.plain : Fault → Bool
  | .cellOfExpression => false
  | cause => cause.names.isEmpty

/-- The rules that need an integer, by the names that faults have for them. -/
def integerRules : List String := ["FOR", "BREAK", "INDEX", "ASSIGN"]

/-- A name stands before the brackets of a chain of index expressions. -/
def Expr.NamedBase (e : Expr) : Prop := ∃ place x, e.indexChain.1 = .name place x

/-! ## Materials -/

/-- What programs may be made of: expressions and statements, with all their parts. -/
structure Material where
  expr : Expr → Prop
  stmt : Stmt → Prop
  expr_part : ∀ {e e'}, expr e → e' ∈ e.parts → expr e'
  stmt_expr : ∀ {s e}, stmt s → e ∈ s.exprs → expr e
  stmt_part : ∀ {s s'}, stmt s → s' ∈ s.parts → stmt s'

namespace Material

def whole : Material where
  expr _ := True
  stmt _ := True
  expr_part _ _ := trivial
  stmt_expr _ _ := trivial
  stmt_part _ _ := trivial

def nodes (S : Stmt → Prop) : Material where
  expr e := ∃ s, S s ∧ s.HasExpr e
  stmt n := ∃ s, S s ∧ s.Node n
  expr_part := fun ⟨s, hs, he⟩ he' => ⟨s, hs, he.snoc he'⟩
  stmt_expr := fun ⟨s, hs, hn⟩ he => ⟨s, hs, hn.hasExpr he⟩
  stmt_part := fun ⟨s, hs, hn⟩ hn' => ⟨s, hs, hn.snoc hn'⟩

variable (M : Material)

def Place (loc : Location) : Prop :=
  (∃ s, M.stmt s ∧ s.location = loc) ∨ ∃ e, M.expr e ∧ e.location = loc

def Name (x : String) : Prop :=
  (∃ s, M.stmt s ∧ x ∈ s.names) ∨ ∃ e, M.expr e ∧ x ∈ e.names

/-- A function that is defined in the material. -/
def Defines (name : String) (f : Function) : Prop :=
  ∃ loc, M.stmt (.define loc name f.params f.returns f.body)

/-- A fault that a program may end in: it is placed at a node, and tells names of nodes.  The
fault for a cell of what is no name needs an assignment to such a cell. -/
structure Blames (cause : Fault) (loc : Location) : Prop where
  place : M.Place loc
  names : ∀ x ∈ cause.names, M.Name x ∨ x ∈ integerRules
  target : cause = .cellOfExpression →
    ∃ loc target value, M.stmt (.assignCell loc target value) ∧ ¬ target.NamedBase

variable {M}

theorem place_of_expr {e : Expr} (h : M.expr e) : M.Place e.location := .inr ⟨e, h, rfl⟩

theorem place_of_stmt {s : Stmt} (h : M.stmt s) : M.Place s.location := .inl ⟨s, h, rfl⟩

theorem name_of_expr {e : Expr} {x : String} (h : M.expr e) (hx : x ∈ e.names) : M.Name x :=
  .inr ⟨e, h, hx⟩

theorem name_of_stmt {s : Stmt} {x : String} (h : M.stmt s) (hx : x ∈ s.names) : M.Name x :=
  .inl ⟨s, h, hx⟩

theorem place_whole (loc : Location) : whole.Place loc := .inr ⟨.name loc "", trivial, rfl⟩

theorem name_whole (x : String) : whole.Name x :=
  .inr ⟨.name .first x, trivial, List.mem_singleton_self x⟩

theorem blames_plain {cause : Fault} {loc : Location} (hp : cause.plain = true)
    (h : M.Place loc) : M.Blames cause loc := by
  have hn : cause.names = [] := by
    unfold Fault.plain at hp
    split at hp
    · cases hp
    · exact List.isEmpty_iff.mp hp
  refine ⟨h, fun x hx => absurd (hn ▸ hx) List.not_mem_nil, fun hc => ?_⟩
  rw [hc] at hp
  cases hp

/-- A fault that tells names. -/
theorem blames_telling {cause : Fault} {loc : Location} (h : M.Place loc) (hne : cause.names ≠ [])
    (hn : ∀ x ∈ cause.names, M.Name x) : M.Blames cause loc :=
  ⟨h, fun x hx => .inl (hn x hx), fun hc => absurd (congrArg Fault.names hc) hne⟩

/-- The base and the indices of a chain of index expressions are of the material. -/
theorem expr_indexChain : ∀ {e : Expr}, M.expr e →
    M.expr e.indexChain.1 ∧ ∀ i ∈ e.indexChain.2, M.expr i
  | .index loc base indices, h => by
    obtain ⟨hroot, houter⟩ := expr_indexChain (M.expr_part h (List.mem_cons_self ..) : M.expr base)
    rw [Expr.indexChain_index]
    refine ⟨hroot, fun i hi => ?_⟩
    rcases List.mem_append.mp hi with hi | hi
    · exact houter i hi
    · exact M.expr_part h (List.mem_cons_of_mem _ hi)
  | .literal _ _, h | .tensor _ _, h | .name _ _, h | .call _ _ _, h => ⟨h, nofun⟩

/-! ## Functions of a material -/

section

variable {name : String} {f : Function} (h : M.Defines name f)
include h

theorem Defines.default {e : Expr} (he : e ∈ f.params.filterMap Param.default) : M.expr e := by
  obtain ⟨loc, hs⟩ := h
  exact M.stmt_expr hs he

theorem Defines.body {s : Stmt} (hs : s ∈ f.body.statements) : M.stmt s := by
  obtain ⟨loc, hd⟩ := h
  exact M.stmt_part hd hs

theorem Defines.returns : M.Name f.returns := by
  obtain ⟨loc, hs⟩ := h
  exact name_of_stmt hs (List.mem_cons_of_mem _ (List.mem_cons_self ..))

theorem Defines.param {p : Param} (hp : p ∈ f.params) : M.Name p.name ∧ M.Name p.type := by
  obtain ⟨loc, hs⟩ := h
  have hmem {x : String} (hx : x ∈ [p.name, p.type]) : M.Name x :=
    name_of_stmt hs (List.mem_cons_of_mem _
      (List.mem_cons_of_mem _ (List.mem_flatMap.mpr ⟨p, hp, hx⟩)))
  exact ⟨hmem (List.mem_cons_self ..), hmem (List.mem_cons_of_mem _ (List.mem_cons_self ..))⟩

end

end Material

end SpanScript
