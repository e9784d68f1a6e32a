import SpanScript.Proofs.Session.Apart
import SpanScript.Proofs.Store.Binding

/-!
# Quiet expressions

An expression is quiet if all that it calls are built-in functions other than those that
print or delete.  It may hold tensors that were not there, for a literal of one, a shape, a
cut text.  Otherwise it only looks: no scope, no tensor that was there, no function and
nothing printed is changed, whether it gives a value or fails.

What a program calls by the name of a built-in function is that function only as long as no
function of the program has the name.  None ever has, as a definition refuses these names.

* `Store.Spares`: all that was there is as it was.
* `Store.Unshadowed`: no function has the name of a built-in one.
* `sparing`: quiet expressions as an accord.
* `machine_spares`: the expressions.
-/

namespace SpanScript

open Run Accord

/-! ## What is spared -/

namespace Store

/-- A later store has all that an earlier one has as it was there; it may hold more tensors. -/
structure Spares (s t : Store) : Prop where
  scopes : t.scopes = s.scopes
  functions : t.functions = s.functions
  calls : t.calls = s.calls
  printed : t.printed = s.printed
  size : s.tensors.size ≤ t.tensors.size
  tensors : ∀ ref < s.tensors.size, t.tensor ref = s.tensor ref

/-- No function has the name of a built-in one. -/
def Unshadowed (s : Store) : Prop := ∀ op : Builtin, s.function? op.name = none

variable {s t u : Store}

theorem Spares.refl (s : Store) : s.Spares s :=
  ⟨rfl, rfl, rfl, rfl, Nat.le_refl _, fun _ _ => rfl⟩

theorem Spares.trans (h : s.Spares t) (h' : t.Spares u) : s.Spares u where
  scopes := h'.scopes.trans h.scopes
  functions := h'.functions.trans h.functions
  calls := h'.calls.trans h.calls
  printed := h'.printed.trans h.printed
  size := Nat.le_trans h.size h'.size
  tensors ref href :=
    (h'.tensors ref (Nat.lt_of_lt_of_le href h.size)).trans (h.tensors ref href)

theorem Spares.addTensor (s : Store) (T : Tensor) : s.Spares (s.addTensor T) where
  scopes := rfl
  functions := rfl
  calls := rfl
  printed := rfl
  size := by
    rw [Store.addTensor, Array.size_push]
    exact Nat.le_succ _
  tensors ref href := by rw [tensor_addTensor, if_neg (Nat.ne_of_lt href)]

theorem Spares.scope (h : s.Spares t) (id : Nat) : t.scope id = s.scope id := by
  rw [Store.scope, Store.scope, h.scopes]

theorem Spares.scopeOf? (h : s.Spares t) (chain : Chain) (x : String) :
    t.scopeOf? chain x = s.scopeOf? chain x := by
  simp only [Store.scopeOf?, h.scope]

theorem Spares.get? (h : s.Spares t) (chain : Chain) (x : String) :
    t.get? chain x = s.get? chain x := by
  simp only [Store.get?, h.scopeOf?, h.scope]

theorem Spares.target (h : s.Spares t) (chain : Chain) (x : String) :
    t.target chain x = s.target chain x := by
  rw [Store.target, Store.target, h.scopeOf?]

theorem Spares.unshadowed (h : s.Spares t) (hs : s.Unshadowed) : t.Unshadowed := by
  intro op
  rw [Store.function?, h.functions]
  exact hs op

theorem Apart.unshadowed {A : Prop} (h : s.Apart A) : s.Unshadowed := h.builtins

end Store

/-! ## Runs -/

namespace Run

variable {α β : Type} {m : Run α} {k : α → Run β}

/-- However a run ends, it leaves what was there as it was. -/
def Spares (m : Run α) : Prop := ∀ s : Store, s.Unshadowed → s.Spares (m.run.run s).2

/-- A run that leaves what was there as it was is in accord with itself. -/
def Accord.sparing : Accord where
  Related s t := t = s ∧ s.Unshadowed
  Later := Store.Spares
  Halts h h' := h' = h
  Excepted _ := False
  refl := Store.Spares.refl
  trans := Store.Spares.trans

theorem spares_of_agree {Q : Store → α → Prop}
    (h : ∀ s, Accord.sparing.Agree s Q m m) : Spares m := by
  intro s hs
  have hm : Accord.sparing.AgreeAt Q m m s s := h s (.refl s) ⟨rfl, hs⟩
  unfold AgreeAt at hm
  generalize m.run.run s = x at hm ⊢
  rcases hm with ⟨ht, -, -⟩ | ⟨ht, -, -⟩ | hx
  · exact ht
  · exact ht
  · exact hx.elim

theorem Spares.agree (h : Spares m) (s : Store) : Accord.sparing.Agree s Any m m := by
  rintro t _ - ⟨rfl, ht⟩
  have hm := h _ ht
  unfold AgreeAt
  generalize m.run.run _ = x at hm ⊢
  obtain ⟨_ | a, u⟩ := x
  · exact .halt hm ⟨rfl, hm.unshadowed ht⟩ rfl
  · exact .answer hm ⟨rfl, hm.unshadowed ht⟩ trivial

end Run

/-! ## Built-in functions -/

namespace Builtin

/-- The built-in functions that neither print nor delete. -/
def quiet : Builtin → Bool
  | .print | .println | .del => false
  | _ => true

/-- A built-in function is found by its name. -/
theorem ofName?_name (op : Builtin) : ofName? op.name = some op := by
  cases op <;> decide

end Builtin

/-! ## Expressions -/

namespace Expr

/-- All that an expression calls are built-in functions that neither print nor delete. -/
def Quiet (e : Expr) : Prop :=
  ∀ name, e.Calls name → ∃ op, Builtin.ofName? name = some op ∧ op.quiet = true

theorem Quiet.part {e e' : Expr} (h : e.Quiet) (he : e' ∈ e.parts) : e'.Quiet :=
  fun name hc => h name (.part he hc)

theorem quiet_of_parts {e : Expr} (h : ∀ loc name args, e = .call loc name args →
    ∃ op, Builtin.ofName? name = some op ∧ op.quiet = true) (hp : ∀ e' ∈ e.parts, e'.Quiet) :
    e.Quiet := by
  intro name hc
  cases hc with
  | here => exact h _ _ _ rfl
  | part he hc => exact hp _ he name hc

theorem quiet_literal (loc : Location) (v : Literal) : (literal loc v).Quiet :=
  quiet_of_parts nofun nofun

theorem quiet_name (loc : Location) (x : String) : (name loc x).Quiet :=
  quiet_of_parts nofun nofun

theorem Quiet.index {base : Expr} {indices : List Expr} (hbase : base.Quiet)
    (hindices : ∀ i ∈ indices, i.Quiet) (loc : Location) : (index loc base indices).Quiet :=
  quiet_of_parts nofun (List.forall_mem_cons.mpr ⟨hbase, hindices⟩)

theorem Quiet.indexChain {e : Expr} (h : e.Quiet) :
    e.indexChain.1.Quiet ∧ ∀ i ∈ e.indexChain.2, i.Quiet :=
  ⟨fun name hc => h name ((Calls.of_indexChain e).1 hc),
    fun i hi name hc => h name ((Calls.of_indexChain e).2 i hi hc)⟩

end Expr

/-! ## Quiet expressions as an accord -/

/-- Quiet expressions, and no statements. -/
def Material.quiet : Material where
  expr := Expr.Quiet
  stmt _ := False
  expr_part := Expr.Quiet.part
  stmt_expr := False.elim
  stmt_part := False.elim

theorem Material.place_quiet (loc : Location) : Material.quiet.Place loc :=
  .inr ⟨_, Expr.quiet_literal loc (.int 0), rfl⟩

/-- Runs on quiet expressions, which leave what was there as it was. -/
def sparing : Evaluation where
  toAccord := .sparing
  material := .quiet
  move := id
  carry := id
  Sees _ _ := True
  Held := Any
  Allows op := op.quiet = true
  scopes h := by rw [h.1]
  tensors h := by rw [h.1]
  functions h name := by rw [h.1, Option.map_id]; rfl
  sees _ _ := trivial
  held _ _ := trivial
  plain _ := trivial
  bound _ _ := trivial
  cell _ _ := trivial
  missing _ _ _ _ _ _ := rfl
  blames _ := rfl
  tooDeep := rfl
  printTooLong := rfl
  unfinished := rfl
  allowed {_ op _} he := by
    obtain ⟨op', hop, hquiet⟩ := he op.name .here
    rw [Builtin.ofName?_name] at hop
    exact Option.some.inj hop ▸ hquiet
  addTensor h _ _ := ⟨.addTensor _ _, ⟨by rw [h.1], h.2⟩, trivial⟩
  print h := by rcases h with h | h <;> cases h
  remove h := by cases h

namespace Machine

variable {m : Machine} {chain : Chain}

/-- Quiet expressions that a machine evaluates leave what was there as it was. -/
def Spares (m : Machine) : Prop :=
  ∀ n chain e, e.Quiet → Run.Spares (m.evalUnder n chain e)

theorem Spares.under (h : m.Spares) (n : Nat) : (m.under n).Spares := fun _ => h _

theorem Spares.evaluates (h : m.Spares) : Evaluates sparing id m m :=
  ⟨.refl _ _, fun n s chain e _ he => by rw [e.relocate_id]; exact (h n chain e he).agree s⟩

theorem spares_cellNumber (hm : m.Spares) (loc : Location) {rule : String}
    (hr : rule ∈ integerRules) (ref : TensorRef) {es : List Expr} (he : ∀ e ∈ es, e.Quiet) :
    Run.Spares (m.cellNumber chain loc rule ref es) := by
  refine spares_of_agree (Q := Located sparing ref) fun s => ?_
  have href : sparing.Held s (.tns ref) := trivial
  have hc : sparing.Sees s chain := trivial
  have h := agree_cellNumber hm.evaluates hc (Material.place_quiet loc) hr href he
  rwa [show sparing.move = id from rfl, funext Expr.relocate_id, List.map_id'] at h

theorem spares_readCell (ref : TensorRef) (offset : Nat) : Run.Spares (readCell ref offset) := by
  intro s _
  unfold readCell
  rw [run_get]
  cases (s.tensor ref).cells[offset]? with
  | some v => exact .refl s
  | none => exact .refl s

/-- No function of the program has the name that a quiet expression calls. -/
theorem dispatches_sparing
    (defined : Location → String → Function → Arguments → Run Value) :
    Dispatches sparing defined defined := by
  intro s t loc name args F given hst he hF _
  obtain ⟨op, hop, -⟩ := he name .here
  have hname : op.name = name := by simpa using List.find?_some hop
  have hnone : s.function? op.name = none := hst.2 op
  rw [hname, hF] at hnone
  cases hnone

theorem spares_evalRule (hm : m.Spares) {e : Expr} (he : e.Quiet) :
    Run.Spares (m.evalRule chain e) := by
  rw [← evalBy_callDefined]
  exact spares_of_agree fun _ => agree_evalBy_id (S := sparing) hm.evaluates trivial
    (dispatches_sparing m.callDefined) rfl he

end Machine

/-- **Quiet expressions leave what was there as it was**, however deep they may nest. -/
theorem machine_spares (turns : Nat) : ∀ levels : Nat, (machine turns levels).Spares := by
  intro levels
  induction levels with
  | zero => exact fun _ _ _ _ s _ => .refl s
  | succ levels ih =>
    intro n chain e he
    cases n with
    | zero => exact Machine.spares_evalRule ih he
    | succ n => exact ih n chain e he

end SpanScript
