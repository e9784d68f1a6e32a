import SpanScript.Proofs.Eval.Guarded
import SpanScript.Proofs.Eval.Statements
import SpanScript.Proofs.Store.Extension

/-!
# Evaluation is safe

A run is safe when in a sound store it leaves a sound store that extends the one it began
in, gives an answer that is held, and finds everything it looks up.  Every rule of
evaluation is safe on a chain of scopes that the store holds, and on a tree that deletes no
more than is allowed: soundness is an accord of a run with itself.  The second run is that
of a guarded machine, and what is safe passes its guards.

* `Lands`, `Does`: what a safe run comes to, and that another one does the same.
* `safety`: soundness as an accord.
* `machine_keeps`: the machines.
* `exec_keeps`, `eval_lands`, `extends_of_eval`, `cellNumber_lands`: what they come to.
-/

namespace SpanScript

open Run Accord

variable {D : Prop} {s t : Store}

/-! ## Safe runs -/

namespace Run

variable {α : Type} {Q : Store → α → Prop} {m m' : Run α}

/-- What a safe run from a store comes to: `Q` says which answers are expected. -/
structure Lands (D : Prop) (s : Store) (Q : Store → α → Prop) (x : Except Halt α × Store) :
    Prop where
  later : s.Extends D x.2
  sound : x.2.Sound D
  answer : ∀ a, x.1 = .ok a → Q x.2 a
  found : ∀ what, x.1 ≠ .error (.absent what)

/-- From the store `t` the run `m` lands as expected, seen from `s`, and `m'` does what
`m` does. -/
structure Does (D : Prop) (s : Store) (Q : Store → α → Prop) (m m' : Run α) (t : Store) :
    Prop where
  same : m'.run.run t = m.run.run t
  lands : Lands D s Q (m.run.run t)

end Run

/-- A value that is returned is held, and there is a call that it is returned from. -/
def Completion.Fits (s : Store) : Completion → Prop
  | .returning v => v.Held s ∧ s.calls ≠ []
  | _ => True

/-- The kind of a variable that may be assigned to is the kind of the value. -/
theorem kind_of_assignScope {chain : Chain} {x : String} {v : Value} {declared : Option TypeName}
    {id : Nat} (h : s.assignScope chain x v declared = .ok id) (hc : chain ≠ []) :
    ∀ old, (s.scope id).lookup x = some old → v.kind = old.kind := by
  intro old hold
  unfold Store.assignScope at h
  split at h
  · next id' old' hid hget =>
    split at h
    · cases h
    · split at h
      · cases h
      · next hk =>
        cases h
        rw [Store.get?, hid, Option.bind_some, hold] at hget
        cases hget
        exact Decidable.not_not.mp hk
  · next hnone =>
    split at h
    · cases h
    · split at h
      · cases h
      · -- a name that is not bound yet is not bound in the innermost scope
        cases h
        obtain ⟨first, rest, rfl⟩ := List.exists_cons_of_ne_nil hc
        exfalso
        rw [List.headD_cons] at hold
        have hfound : s.scopeOf? (first :: rest) x = some first := by
          simp [Store.scopeOf?, Scope.binds, hold]
        exact hnone first old hfound (by rw [Store.get?, hfound, Option.bind_some, hold])

/-- A value that is no tensor is held. -/
theorem Value.held_of_kind {v : Value} (h : v.kind ≠ .tns) : v.Held s := by
  cases v with
  | tns ref => exact absurd rfl h
  | _ => trivial

/-! ## Soundness as an accord -/

/-- The trees that delete nothing, unless that is allowed. -/
def Material.admitting (D : Prop) : Material where
  expr := Expr.Admits D
  stmt := Stmt.Admits D
  expr_part h he := h.part he
  stmt_expr h he := h.expr he
  stmt_part h hs := h.part hs

/-- A function that deletes nothing is defined by a statement that deletes nothing. -/
theorem Function.Admits.defines {f : Function} (h : f.Admits D) (name : String) :
    (Material.admitting D).Defines name f := by
  refine ⟨.first, fun hcalls => h ?_⟩
  cases hcalls with
  | expr he hc => exact .inl ⟨_, he, hc⟩
  | part hs hc => exact .inr ⟨_, hs, hc⟩

theorem Material.name_admitting (x : String) : (Material.admitting D).Name x :=
  .inr ⟨.name .first x, nofun, List.mem_cons_self ..⟩

/-- What sound stores keep: a run and one that watches it stay in the same stores, which are
sound, and go from each to one that extends it. -/
def safety (D : Prop) : Execution where
  Related s t := t = s ∧ s.Sound D
  Later := Store.Extends D
  Halts h h' := h' = h ∧ ∀ what, h ≠ .absent what
  Excepted _ := False
  refl := .refl
  trans := .trans
  material := .admitting D
  move := id
  carry := id
  home := id
  Sees := Chain.Held
  Held s v := v.Held s
  Allows op := op = .del → D
  Returns s v := v.Held s ∧ s.calls ≠ []
  scopes h := by rw [h.1]
  tensors h := by rw [h.1]
  functions h name := by rw [h.1, Option.map_id, id]
  sees h hs := h.mono hs
  held h hs := h.mono hs
  plain := Value.held_of_kind
  bound h hx := h.2.get? hx
  cell h hv := h.2.cells _ _ hv
  missing := by
    rintro u v s t ref ns n ⟨-, hsound⟩ hheld hn hlater ⟨-, -⟩ hnone
    have hlt := (hsound.filled ref).offset_lt hn
    rw [← (hlater.tensors.2 ref hheld).size] at hlt
    exact absurd (Array.getElem?_eq_none_iff.mp hnone) (Nat.not_le.mpr hlt)
  blames _ := ⟨rfl, nofun⟩
  tooDeep := ⟨rfl, nofun⟩
  printTooLong := ⟨rfl, nofun⟩
  unfinished := ⟨rfl, nofun⟩
  allowed h hdel := h (hdel ▸ .here)
  addTensor := by
    rintro s t T ⟨rfl, hs⟩ hf hc
    refine ⟨.addTensor t T, ⟨rfl, hs.addTensor hf hc⟩, ?_⟩
    show t.tensors.size < (t.tensors.push T).size
    rw [Array.size_push]
    exact Nat.lt_succ_self _
  print := by
    rintro s t - ⟨rfl, hs⟩ text
    exact ⟨.print t text, rfl, hs.print text⟩
  remove := by
    rintro s t chain x id hD ⟨rfl, hs⟩ - -
    exact ⟨.remove t (hD rfl) id x, rfl, hs.remove id x⟩
  carries := Function.relocate_id
  defined h hf := (h.2.function? hf).2.defines _
  addScope := by
    rintro s t name F ⟨rfl, hs⟩ hF
    refine ⟨.addScope t, ⟨rfl, hs.addScope⟩, List.cons_ne_nil _ _, fun i hi => ?_⟩
    have hsize : t.addScope.scopes.size = t.scopes.size + 1 := Array.size_push _
    rcases List.mem_cons.mp hi with rfl | hi
    · exact hsize ▸ Nat.lt_succ_self _
    · exact hsize ▸ Nat.lt_succ_of_lt ((hs.function? hF).1.2 i hi)
  param := by
    rintro s t u v closure w ⟨rfl, hs⟩ hsu ⟨rfl, hu⟩ hc hw x
    refine ⟨hsu.put_new (Nat.le_refl _) x w, ⟨rfl, hu.put _ x hw⟩, hc.of_size ?_⟩
    exact Nat.le_of_eq (Store.size_put ..).symm
  returns h hs := ⟨h.1.mono hs, hs.calls ▸ h.2⟩
  returning _ hne hs hv := ⟨hv, hs.calls ▸ hne⟩
  calls h := by rw [h.1]
  running _ _ := Material.name_admitting _
  uncalled h hname hf := by
    have hsome := h.2.calls _ hname
    rw [hf] at hsome
    cases hsome
  setCell := by
    rintro s t ref n old v ⟨rfl, hs⟩ ho hk hv
    exact ⟨.setCell t ho hk, rfl, hs.setCell ho hk hv⟩
  rebind := by
    rintro s t chain x v id ⟨rfl, hs⟩ hc hv ha
    exact ⟨.put t id x fun _ => kind_of_assignScope ha hc.1, rfl, hs.put id x hv⟩

/-- Runs in this accord do the same and land as expected. -/
theorem ends_safety {α : Type} {Q : Store → α → Prop} {x y : Except Halt α × Store}
    (h : (safety D).Ends s Q x y) : y = x ∧ Lands D s Q x := by
  cases h with
  | answer hs hr ha =>
    obtain ⟨rfl, ht⟩ := hr
    exact ⟨rfl, hs, ht, fun _ he => Except.ok.inj he ▸ ha, nofun⟩
  | halt hs hr hh =>
    obtain ⟨rfl, ht⟩ := hr
    obtain ⟨rfl, hfound⟩ := hh
    exact ⟨rfl, hs, ht, nofun, fun what he => hfound what (Except.error.inj he)⟩
  | excepted hx => exact hx.elim

theorem nests_safety (D : Prop) : (safety D).Nests where
  home := rfl
  push := by
    rintro s t u v name F ⟨rfl, hs⟩ hF - hsu ⟨rfl, hu⟩
    refine ⟨rfl, hu.withCalls fun x hx => ?_⟩
    rcases List.mem_cons.mp hx with rfl | hx
    · exact hsu.functions x (Option.isSome_of_eq_some hF)
    · exact hu.calls x hx
  sees _ h := h.of_size (Nat.le_refl _)
  hosts name :=
    { pop := by
        rintro s t u v ⟨rfl, hs⟩ hsu ⟨rfl, hu⟩
        have hdrop : v.calls.drop 1 = t.calls := by
          rw [show v.calls = name :: t.calls from hsu.calls, List.drop_one, List.tail_cons]
        have hcalled : v.called = { v with calls := t.calls } := by rw [Store.called, hdrop]
        rw [hcalled]
        exact ⟨hsu.withCalls t.calls, rfl,
          hu.withCalls fun x hx => hsu.functions x (hs.calls x hx)⟩
      halts := id
      excepted := id }
  held h := h.1.of_size (Nat.le_refl _)

/-- An assignment and a definition leave a sound store. -/
theorem binds_safety (D : Prop) :
    Machine.Binds (safety D) (fun _ step => step) fun _ step => step := by
  refine Machine.binds_id ?_ ?_
  · rintro s t chain x v declared id ⟨rfl, hs⟩ hc hv ha
    exact ⟨.put t id x fun _ => kind_of_assignScope ha hc.1, rfl, hs.put id x hv⟩
  · rintro s t chain loc name params returns body ⟨rfl, hs⟩ hc hd -
    refine ⟨.define t name _, ?_, hs.define name hc ?_⟩
    · exact congrArg (t.define name) (Function.relocate_id _)
    · rintro (⟨e, he, hcalls⟩ | ⟨st, hst, hcalls⟩)
      · exact hd (.expr he hcalls)
      · exact hd (.part hst hcalls)

/-! ## Machines -/

/-- **Evaluation is safe**, however deep it may nest, and passes every guard that asks for
what sound stores keep. -/
theorem machine_keeps {p : Store → Store → Prop} [DecidableRel p]
    (hp : ∀ s t, s.Sound D → t.Sound D → s.Extends D t → p s t) (h : Halt) (turns : Nat) :
    ∀ levels : Nat,
      Machine.Executes (safety D) (machine turns levels) (guardedMachine p h turns levels) := by
  have hguarded {α : Type} {Q : Store → α → Prop} {m m' : Run α} {s t : Store}
      (hst : (safety D).Related s t) (hm : (safety D).AgreeAt Q m m' s t) :
      (safety D).AgreeAt Q m (guarded p h m') s t := by
    obtain ⟨rfl, hs⟩ := hst
    refine agreeAt_guarded h hm ?_
    rintro u v hlater ⟨rfl, hu⟩
    exact hp _ _ hs hu hlater
  intro levels
  induction levels with
  | zero =>
    exact Machine.executes_of_id rfl (.refl _ _) (fun _ _ _ _ _ _ => agree_throw ⟨rfl, nofun⟩)
      fun _ _ _ _ _ _ => agree_throw ⟨rfl, nofun⟩
  | succ levels ih =>
    have hcalls : Machine.Dispatches (safety D).toEvaluation (machine turns levels).callDefined
        (fun loc name f given =>
          guarded p h ((guardedMachine p h turns levels).callDefined loc name f given)) := by
      intro s t loc name args F given hst he hF hg
      exact hguarded hst (Machine.dispatches_callDefined (nests_safety D) ih hst he hF hg)
    refine Machine.executes_of_id rfl (.refl _ _) (fun n s chain e hc he => ?_)
      fun n s chain st hc hs => ?_
    · cases n with
      | zero =>
        have heval := Machine.agree_evalBy_id ih.toEvaluates hc hcalls rfl he
        rw [Machine.evalBy_callDefined, ← Machine.evalGuarded_eq] at heval
        exact fun t t' ht hr => hguarded hr (heval ht hr)
      | succ n => exact ih.eval_id rfl hc n he
    · cases n with
      | zero =>
        have hexec := Machine.agree_execBinding_id rfl ih hc (binds_safety D) turns hs
        rw [Machine.execBinding_id, Machine.execBinding_id] at hexec
        exact fun t t' ht hr => hguarded hr (hexec ht hr)
      | succ n => exact ih.exec_id rfl hc n hs

section

variable {chain : Chain} (hs : s.Sound D) (hc : Chain.Held s chain)
include hs hc

/-- What the execution of a statement comes to in a sound store. -/
theorem exec_keeps {p : Store → Store → Prop} [DecidableRel p]
    (hp : ∀ s t, s.Sound D → t.Sound D → s.Extends D t → p s t) (h : Halt) (turns levels : Nat)
    {st : Stmt} (hst : st.Admits D) :
    Does D s Completion.Fits ((machine turns levels).exec chain st)
      ((guardedMachine p h turns levels).exec chain st) s := by
  have hagree := (machine_keeps hp h turns levels).exec_id rfl hc 0 hst (.refl s) ⟨rfl, hs⟩
  obtain ⟨hsame, hlands⟩ := ends_safety hagree
  refine ⟨hsame, hlands.later, hlands.sound, fun c hc => ?_, hlands.found⟩
  cases c with
  | returning v => exact hlands.answer _ hc v rfl
  | _ => trivial

/-- What the evaluation of an expression comes to in a sound store. -/
theorem eval_lands {e : Expr} (he : e.Admits D) (turns levels extra : Nat) :
    Lands D s Value.Held ((((machine turns levels).under extra).eval chain e).run.run s) := by
  have hkeeps := machine_keeps (D := D) (p := fun _ _ => True) (fun _ _ _ _ _ => trivial)
    .unfinished turns levels
  exact (ends_safety ((hkeeps.under extra).eval_id rfl hc 0 he (.refl s) ⟨rfl, hs⟩)).2

end

/-- Whatever an expression does, what it leaves is a later store. -/
theorem extends_of_eval {t : Store} {chain : Chain} {e : Expr} {turns levels extra : Nat}
    {r : Except Halt Value} (hs : s.Sound True) (hc : Chain.Held s chain)
    (h : (((machine turns levels).under extra).eval chain e).run.run s = (r, t)) :
    s.Extends True t := by
  have hlands := eval_lands hs hc (e := e) (fun _ => trivial) turns levels extra
  rw [h] at hlands
  exact hlands.later

/-- What indices come to in a sound store. -/
theorem cellNumber_lands (hs : s.Sound True) {chain : Chain} (hc : Chain.Held s chain)
    (loc : Location) {rule : String} (hr : rule ∈ integerRules) {ref : TensorRef}
    (href : ref < s.tensors.size) (turns levels : Nat) (es : List Expr) :
    Lands True s (fun t n => n < (t.tensor ref).cells.size)
      (((machine turns levels).cellNumber chain loc rule ref es).run.run s) := by
  have hkeeps := machine_keeps (D := True) (p := fun _ _ => True) (fun _ _ _ _ _ => trivial)
    .unfinished turns levels
  have hplace : (safety True).material.Place loc :=
    Material.place_of_expr (e := .name loc "") fun _ => trivial
  have hindices : ∀ e ∈ es, (safety True).material.expr e := fun _ _ _ => trivial
  have hagree := Machine.agree_cellNumber hkeeps.toEvaluates hc hplace hr href hindices (.refl s)
    ⟨rfl, hs⟩
  have hlands := (ends_safety hagree).2
  refine ⟨hlands.later, hlands.sound, fun n hn => ?_, hlands.found⟩
  obtain ⟨u, -, ns, ⟨-, hu⟩, hheld, hoffset, hlater⟩ := hlands.answer n hn
  rw [(hlater.tensors.2 ref hheld).size]
  exact (hu.filled ref).offset_lt hoffset

end SpanScript
