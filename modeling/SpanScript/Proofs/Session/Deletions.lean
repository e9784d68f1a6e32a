import Mathlib.Data.List.Basic
import SpanScript.Proofs.Session.Scoping
import SpanScript.Proofs.Syntax.Calls

/-!
# What an expression does to the scope it is evaluated in

An expression binds nothing.  What it can do to the scope that it is evaluated in, where
no function was defined there, is to delete names from it by calls of `DEL` of its own: a
function that it calls does not see that scope, and nothing else looks at names but to read
them.  No part of an expression is skipped when it is evaluated, so a name that it deletes
anywhere is gone, and every other one is bound as before.

* `Expr.Deletes`: a name is deleted by a call in the expression.
* `Store.Drops`, `Run.Drops`: what becomes of the scope.
* `machine_drops`: an expression deletes what it says, and nothing else.
-/

namespace SpanScript

inductive Expr.Deletes (x : String) : Expr → Prop
  | here {loc place : Location} {a : Argument} {args : List Argument} :
    a.value = .name place x → Deletes x (.call loc Builtin.del.name (a :: args))
  | part {e e' : Expr} : e' ∈ e.parts → Deletes x e' → Deletes x e

namespace Expr

variable {x : String}

theorem not_deletes_name (loc : Location) (y : String) : ¬ (name loc y).Deletes x := by
  intro h
  cases h with
  | part hmem _ => cases hmem

theorem not_deletes_literal (loc : Location) (v : Literal) : ¬ (literal loc v).Deletes x := by
  intro h
  cases h with
  | part hmem _ => cases hmem

theorem deletes_iff {e : Expr} (h : ∀ loc args, e ≠ .call loc Builtin.del.name args) :
    e.Deletes x ↔ ∃ e' ∈ e.parts, e'.Deletes x := by
  constructor
  · intro hd
    cases hd with
    | here => exact absurd rfl (h _ _)
    | part hmem hd => exact ⟨_, hmem, hd⟩
  · rintro ⟨e', hmem, hd⟩
    exact .part hmem hd

/-- What an index chain deletes, its base or one of its indices does. -/
theorem deletes_indexChain : ∀ e : Expr,
    e.Deletes x ↔ e.indexChain.1.Deletes x ∨ ∃ i ∈ e.indexChain.2, i.Deletes x
  | .index loc base indices => by
    rw [deletes_iff (fun _ _ => Expr.noConfusion), indexChain_index, parts,
      List.exists_mem_cons_iff, deletes_indexChain base]
    simp only [List.mem_append, or_and_right, exists_or, or_assoc]
  | .literal _ _ | .tensor _ _ | .name _ _ | .call _ _ _ => by
    simp only [indexChain, List.not_mem_nil, false_and, exists_false, or_false]

end Expr

/-! ## Names that go from a scope -/

namespace Store

/-- What has become of a scope in which no function was defined: none is, the names `gone`
are not bound in it, and every other one is as before. -/
structure Drops (scope : Nat) (gone : String → Prop) (s t : Store) : Prop where
  size : s.scopes.size ≤ t.scopes.size
  uncaptured : ¬ t.Captures scope
  unbound : ∀ x, gone x → (t.scope scope).lookup x = none
  kept : ∀ x, ¬ gone x → (t.scope scope).lookup x = (s.scope scope).lookup x

variable {s t u : Store} {scope : Nat} {gone later : String → Prop}

theorem Drops.trans (h : s.Drops scope gone t) (h' : t.Drops scope later u) :
    s.Drops scope (fun x => gone x ∨ later x) u where
  size := Nat.le_trans h.size h'.size
  uncaptured := h'.uncaptured
  unbound x hx := by
    by_cases hlater : later x
    · exact h'.unbound x hlater
    · rw [h'.kept x hlater]
      exact h.unbound x (hx.resolve_right hlater)
  kept x hx := by
    obtain ⟨hgone, hlater⟩ := not_or.mp hx
    rw [h'.kept x hlater, h.kept x hgone]

theorem Drops.of_confined (h : s.Confined t) (hs : scope < s.scopes.size)
    (hc : ¬ s.Captures scope) : s.Drops scope (fun _ => False) t where
  size := h.size
  uncaptured hcap := by
    obtain hcap | hnew := h.captured scope hcap
    · exact hc hcap
    · omega
  unbound _ hx := hx.elim
  kept x _ := by rw [h.keepsUncaptured scope hs hc]

end Store

open Run Machine

theorem Scope.lookup_remove (x : String) (sc : Scope) (y : String) :
    (sc.remove x).lookup y = if y = x then none else sc.lookup y := by
  induction sc with
  | nil => rw [remove, List.filter_nil, List.lookup_nil, ite_self]
  | cons b sc ih =>
    obtain ⟨z, w⟩ := b
    rw [remove] at ih ⊢
    by_cases hzx : z = x
    · rw [List.filter_cons_of_neg (by simp [hzx]), ih]
      by_cases hyx : y = x
      · rw [if_pos hyx, if_pos hyx]
      · rw [if_neg hyx, if_neg hyx, List.lookup_cons, hzx, beq_eq_false_iff_ne.mpr hyx]
    · rw [List.filter_cons_of_pos (by simp [hzx]), List.lookup_cons, List.lookup_cons, ih]
      by_cases hyz : y = z
      · subst hyz
        simp only [beq_self_eq_true, if_neg hzx]
      · rw [beq_eq_false_iff_ne.mpr hyz]

theorem Store.scope_remove_self (s : Store) (id : Nat) (x : String) :
    (s.remove id x).scope id = (s.scope id).remove x := by
  rw [scope, remove, Array.getElem?_modify, if_pos rfl, scope]
  cases s.scopes[id]? <;> rfl

theorem Store.first_of_deleteScope {s : Store} {scope id : Nat} {chain : Chain} {x : String}
    (h : s.deleteScope (scope :: chain) x = .ok id) (hb : (s.scope scope).binds x = true) :
    id = scope := by
  rw [deleteScope, scopeOf?, List.find?_cons_of_pos (p := fun id => (s.scope id).binds x) hb] at h
  exact (Except.ok.inj h).symm

/-! ## Runs -/

namespace Run

variable {α β γ : Type} {scope : Nat} {gone later : String → Prop}

/-- Whenever a run gives an answer, the names `gone` have gone from a scope in which no
function was defined, and nothing else has become of it. -/
def Drops (scope : Nat) (gone : String → Prop) (m : Run α) : Prop :=
  ∀ s t a, scope < s.scopes.size → ¬ s.Captures scope → m.run.run s = (.ok a, t) →
    s.Drops scope gone t

theorem Drops.congr {m : Run α} (h : Drops scope gone m) (hg : ∀ x, gone x ↔ later x) :
    Drops scope later m := by
  have heq : gone = later := funext fun x => propext (hg x)
  exact heq ▸ h

theorem Drops.bind {m : Run α} {k : α → Run β} (h : Drops scope gone m)
    (h' : ∀ a, Drops scope later (k a)) :
    Drops scope (fun x => gone x ∨ later x) (m >>= k) := by
  intro s u b hs hc hrun
  obtain ⟨a, t, hm, hk⟩ := run_bind_eq_ok hrun
  have hst := h s t a hs hc hm
  exact hst.trans (h' a t u b (Nat.lt_of_lt_of_le hs hst.size) hst.uncaptured hk)

/-- A run that is followed by nothing that drops names. -/
theorem Drops.bind_left {m : Run α} {k : α → Run β} (h : Drops scope gone m)
    (h' : ∀ a, Drops scope (fun _ => False) (k a)) : Drops scope gone (m >>= k) :=
  (h.bind h').congr fun _ => Iff.of_eq (or_false _)

/-- A run that is preceded by nothing that drops names. -/
theorem Drops.bind_right {m : Run α} {k : α → Run β} (h : Drops scope (fun _ => False) m)
    (h' : ∀ a, Drops scope gone (k a)) : Drops scope gone (m >>= k) :=
  (h.bind h').congr fun _ => Iff.of_eq (false_or _)

/-- A run that halts gives no answer. -/
theorem drops_throw (h : Halt) : Drops scope gone (throw h : Run α) := nofun

theorem drops_fail (cause : Fault) (loc : Location) : Drops scope gone (fail cause loc : Run α) :=
  drops_throw _

theorem drops_ite {c : Prop} [Decidable c] {m n : Run α} (h : c → Drops scope gone m)
    (h' : ¬ c → Drops scope gone n) : Drops scope gone (if c then m else n) := by
  split
  · next hc => exact h hc
  · next hc => exact h' hc

theorem drops_get {k : Store → Run α} (h : ∀ s, Drops scope gone (k s)) :
    Drops scope gone (get >>= k) := fun s t a hs hc hrun => h s s t a hs hc hrun

/-- A run that a call could be drops nothing. -/
theorem drops_of_confined {m : Run α} (h : ∀ s : Store, s.Confined (m.run.run s).2) :
    Drops scope (fun _ => False) m := by
  intro s t a hs hc hrun
  have hst := h s
  rw [hrun] at hst
  exact .of_confined hst hs hc

/-- A run that sees no chain of its own drops nothing. -/
theorem drops_of_tracks {m m' : Run α}
    (h : ∀ s : Store, Tracks (fun t u => u = t ∧ s.Confined t) (fun _ => False) m m') :
    Drops scope (fun _ => False) m := by
  refine drops_of_confined fun s => ?_
  obtain ⟨_, _, hfalse⟩ | ⟨-, -, hconfined⟩ := h s s s ⟨rfl, .refl s⟩
  · exact hfalse.elim
  · exact hconfined

theorem drops_pure (a : α) : Drops scope (fun _ => False) (pure a) :=
  drops_of_tracks fun _ => tracks_pure a

theorem drops_nothing (a : α) (dropped : γ → String → Prop) :
    Drops scope (fun x => ∃ c ∈ ([] : List γ), dropped c x) (pure a) :=
  (drops_pure a).congr fun x => by simp only [List.not_mem_nil, false_and, exists_false]

theorem drops_mapM {k : γ → Run α} {dropped : γ → String → Prop}
    (h : ∀ c, Drops scope (dropped c) (k c)) (cs : List γ) :
    Drops scope (fun x => ∃ c ∈ cs, dropped c x) (cs.mapM k) := by
  induction cs with
  | nil => exact drops_nothing [] dropped
  | cons c cs ih =>
    rw [List.mapM_cons]
    refine ((h c).bind fun _ => ih.bind_left fun _ => drops_pure _).congr fun x => ?_
    rw [List.exists_mem_cons_iff]

/-- A name is deleted from the innermost of the scopes that bind it: from the first one, if
it is bound there. -/
theorem drops_delete (loc : Location) (chain : Chain) (x : String) :
    Drops scope (· = x) (delete loc (scope :: chain) x) := by
  intro s t a hs hc hrun
  rw [delete, run_get] at hrun
  cases hd : s.deleteScope (scope :: chain) x with
  | error cause =>
    rw [hd] at hrun
    cases hrun
  | ok id =>
    rw [hd] at hrun
    cases hrun
    refine ⟨Nat.le_of_eq (s.size_remove id x).symm, hc, ?_, ?_⟩
    · rintro y rfl
      by_cases hid : id = scope
      · rw [hid, Store.scope_remove_self, Scope.lookup_remove, if_pos rfl]
      · -- another scope is the first one that binds the name, so this one does not
        rw [Store.scope_remove_of_ne s hid]
        cases hy : (s.scope scope).lookup y with
        | none => rfl
        | some v => exact absurd (Store.first_of_deleteScope hd (by rw [Scope.binds, hy]; rfl)) hid
    · intro y hy
      by_cases hid : id = scope
      · rw [hid, Store.scope_remove_self, Scope.lookup_remove, if_neg hy]
      · rw [Store.scope_remove_of_ne s hid]

end Run

/-! ## Expressions -/

namespace Machine

variable {m : Machine} {scope : Nat} {chain : Chain}

/-- Expressions that a machine evaluates delete what they say, and nothing else. -/
def Drops (m : Machine) (scope : Nat) (chain : Chain) : Prop :=
  ∀ n e, Run.Drops scope (fun x => e.Deletes x) (m.evalUnder n (scope :: chain) e)

theorem Drops.under (h : m.Drops scope chain) (n : Nat) : (m.under n).Drops scope chain :=
  fun _ => h _

theorem drops_integer (loc : Location) (rule : String) (v : Value) :
    Run.Drops scope (fun _ => False) (integer loc rule v) :=
  drops_of_tracks fun _ => tracks_integer loc rule v

theorem drops_integers (hm : m.Drops scope chain) (loc : Location) (rule : String)
    (es : List Expr) :
    Run.Drops scope (fun x => ∃ e ∈ es, e.Deletes x) (m.integers (scope :: chain) loc rule es) :=
  drops_mapM (fun e => (hm 0 e).bind_left fun _ => drops_integer _ _ _) es

theorem drops_cell (hm : m.Drops scope chain) {e : Expr} (h : ∀ loc items, e ≠ .tensor loc items) :
    Run.Drops scope (fun x => e.Deletes x) (m.cells (scope :: chain) e) := by
  rw [cells_of_ne_tensor m _ h]
  exact (hm 0 e).bind_left fun _ => drops_pure _

mutual

theorem drops_cells {m : Machine} (hm : m.Drops scope chain) : (e : Expr) →
    Run.Drops scope (fun x => e.Deletes x) (m.cells (scope :: chain) e)
  | .tensor loc items => by
    rw [cells]
    refine drops_ite (fun _ => drops_fail _ _) fun _ => ?_
    refine ((drops_rows (hm.under _) none items).bind_left fun _ => drops_pure _).congr fun x => ?_
    exact (Expr.deletes_iff (e := .tensor loc items) nofun).symm
  | .literal _ _ | .index _ _ _ | .name _ _ | .call _ _ _ => drops_cell hm nofun

theorem drops_rows {m : Machine} (hm : m.Drops scope chain) (inner : Option (List Nat)) :
    (es : List Expr) →
    Run.Drops scope (fun x => ∃ e ∈ es, e.Deletes x) (m.rows (scope :: chain) inner es)
  | [] => by
    rw [rows]
    exact drops_nothing _ _
  | e :: es => by
    rw [rows]
    refine ((drops_cells hm e).bind fun y => drops_ite (fun _ => drops_fail _ _) fun _ =>
      (drops_rows hm _ es).bind_left fun _ => drops_pure _).congr fun x => ?_
    rw [List.exists_mem_cons_iff]

end

theorem drops_cellNumber (hm : m.Drops scope chain) (loc : Location) (rule : String)
    (ref : TensorRef) (es : List Expr) :
    Run.Drops scope (fun x => ∃ e ∈ es, e.Deletes x)
      (m.cellNumber (scope :: chain) loc rule ref es) := by
  refine (drops_integers (hm.under _) loc rule es).bind_left fun ns => drops_get fun s => ?_
  cases (s.tensor ref).offset ns with
  | ok n => exact drops_pure n
  | error p => exact drops_fail _ _

theorem drops_readIndex (hm : m.Drops scope chain) (loc : Location) (e : Expr) :
    Run.Drops scope (fun x => e.Deletes x) (m.readIndex (scope :: chain) loc e) := by
  refine ((hm 0 _).bind fun v => ?_).congr fun x => e.deletes_indexChain.symm
  cases v with
  | tns ref =>
    refine (drops_cellNumber hm loc _ ref _).bind_left fun n => ?_
    exact drops_of_tracks fun s => tracks_readCell (Store.invariant_confined s).law ref n
  | _ => exact drops_fail _ _

theorem drops_arguments (hm : m.Drops scope chain) (loc : Location) :
    ∀ (args : List Argument) (given : Arguments),
      Run.Drops scope (fun x => ∃ a ∈ args, a.value.Deletes x)
        (m.arguments (scope :: chain) loc args given) := by
  intro args
  induction args with
  | nil =>
    intro given
    exact drops_nothing given _
  | cons a args ih =>
    intro given
    have hcons (x : String) : (∃ a' ∈ a :: args, a'.value.Deletes x)
        ↔ a.value.Deletes x ∨ ∃ a' ∈ args, a'.value.Deletes x := List.exists_mem_cons_iff ..
    cases a with
    | positional e => exact ((hm 0 e).bind fun _ => ih _).congr fun x => (hcons x).symm
    | keyword y e =>
      exact ((hm 0 e).bind fun _ => drops_ite (fun _ => drops_fail _ _) fun _ => ih _).congr
        fun x => (hcons x).symm

end Machine

theorem Builtin.drops_checkCount {scope : Nat} (loc : Location) (op : Builtin) (count : Nat) :
    Run.Drops scope (fun _ => False) (op.checkCount loc count) :=
  drops_ite (fun _ => drops_fail _ _) fun _ =>
    drops_ite (fun _ => drops_fail _ _) fun _ => drops_pure _

/-- A built-in function that takes a name is given nothing else, and `DEL` deletes it. -/
theorem Builtin.drops_applyToName {scope : Nat} {chain : Chain} (loc : Location) {op : Builtin}
    (hop : op.takesName = true) (args : List Argument) :
    Run.Drops scope (fun x => (Expr.call loc op.name args).Deletes x)
      (op.applyToName loc (scope :: chain) (args.map Argument.value)) := by
  rcases args with _ | ⟨a, _ | ⟨b, args⟩⟩
  · exact (drops_checkCount loc op 0).bind_right fun _ => drops_throw _
  · refine (drops_checkCount loc op 1).bind_right fun _ => ?_
    simp only [List.map_cons, List.map_nil]
    cases ha : a.value with
    | name place x =>
      have hpart (y : String) : ¬ ∃ e' ∈ (Expr.call loc op.name [a]).parts, e'.Deletes y := by
        rintro ⟨e', hmem, hd⟩
        obtain rfl := List.mem_singleton.mp hmem
        exact Expr.not_deletes_name place x (ha ▸ hd)
      cases op with
      | del =>
        refine ((drops_delete loc chain x).bind_left fun _ => drops_pure _).congr fun y => ?_
        constructor
        · rintro rfl
          exact .here ha
        · intro hd
          cases hd with
          | here hname => exact (Expr.name.inj (ha.symm.trans hname)).2.symm
          | part hmem hd => exact absurd ⟨_, hmem, hd⟩ (hpart y)
      | exist =>
        refine (drops_get fun s => drops_pure _).congr fun y => ?_
        have hname : Builtin.exist.name ≠ Builtin.del.name := by decide
        rw [Expr.deletes_iff fun _ _ h => hname (Expr.call.inj h).2.1]
        exact iff_of_false id (hpart y)
      | _ => cases hop
    | _ => exact drops_fail _ _
  · intro s t v _ _ hrun
    obtain ⟨_, _, hcount, -⟩ := run_bind_eq_ok hrun
    cases op with
    | del => cases hcount
    | exist => cases hcount
    | _ => cases hop

/-- A call deletes what its arguments do, unless it is one of `DEL`. -/
theorem drops_call (turns : Nat) {levels : Nat} {scope : Nat} {chain : Chain}
    (hm : (machine turns levels).Drops scope chain) (loc : Location) (callee : String)
    (args : List Argument) :
    Run.Drops scope (fun x => (Expr.call loc callee args).Deletes x)
      ((machine turns levels).call (scope :: chain) loc callee args) := by
  unfold call
  cases hop : (Builtin.ofName? callee).filter Builtin.takesName with
  | some op =>
    obtain ⟨hname, htakes⟩ := Option.filter_eq_some_iff.mp hop
    have hname : Builtin.all.find? (·.name == callee) = some op := hname
    have hfound := List.find?_some hname
    obtain rfl : op.name = callee := beq_iff_eq.mp hfound
    exact drops_ite (fun _ => drops_fail _ _) fun _ => Builtin.drops_applyToName loc htakes args
  | none =>
    have hdel : callee ≠ Builtin.del.name := by
      rintro rfl
      cases hop
    refine ((drops_arguments (hm.under _) loc args _).bind_left fun given => ?_).congr fun x => ?_
    · intro s t v hs hc hrun
      rw [run_get] at hrun
      cases hf : s.function? callee with
      | some f =>
        simp only [hf] at hrun
        have hcall := callDefined_confined turns levels s loc hf given
        rw [hrun] at hcall
        exact .of_confined hcall hs hc
      | none =>
        cases hb : Builtin.ofName? callee with
        | none =>
          simp only [hf, hb] at hrun
          cases hrun
        | some op =>
          have htakes : op.takesName = false := by simpa [hb] using hop
          simp only [hf, hb] at hrun
          have happly : Run.Drops scope (fun _ => False)
              (if given.named.isEmpty then
                op.apply ((machine turns levels).under Weight.builtin).readable loc given.positional
              else Run.fail (.noKeywords callee) loc) :=
            drops_ite (fun _ => drops_of_tracks fun s => Builtin.tracks_apply
              (Store.invariant_confined s).law (.refl _ _) loc htakes _) fun _ => drops_fail _ _
          exact happly s t v hs hc hrun
    · rw [Expr.deletes_iff fun _ _ h => hdel (Expr.call.inj h).2.1]
      simp only [Expr.parts, List.mem_map, exists_exists_and_eq_and]

/-- **An expression deletes what it says**, and nothing else, from the first of the scopes
that it sees, where no function was defined there. -/
theorem machine_drops (turns : Nat) (scope : Nat) (chain : Chain) : ∀ levels : Nat,
    (machine turns levels).Drops scope chain := by
  intro levels
  induction levels with
  | zero => exact fun _ _ => drops_throw _
  | succ levels ih =>
    intro n e
    cases n with
    | succ n => exact ih n e
    | zero =>
      show Run.Drops scope _ ((machine turns levels).evalRule (scope :: chain) e)
      cases e with
      | literal loc v =>
        exact (drops_pure _).congr fun x => iff_of_false id (Expr.not_deletes_literal loc v)
      | name loc x =>
        refine (drops_get fun s => ?_ : Run.Drops scope (fun _ => False) _).congr
          fun y => iff_of_false id (Expr.not_deletes_name loc x)
        cases s.get? (scope :: chain) x with
        | some v => exact drops_pure v
        | none => exact drops_fail _ _
      | tensor loc items =>
        refine (drops_cells ih _).bind_left fun _ => ?_
        exact drops_of_tracks fun s => tracks_newTensor (Store.invariant_confined s).law _
      | index loc base indices => exact drops_readIndex ih loc _
      | call loc callee args => exact drops_call turns ih loc callee args

end SpanScript
