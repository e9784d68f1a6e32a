import SpanScript.Proofs.Eval.Safety

/-!
# Machines that stay in a material

A run stays in a material when the faults it ends in are placed at nodes of the material
and tell names of it.  On the way it keeps what is asked of the store: `Store.Policy` says
what may be asked, one field for each change that is made.  Binding a new name and defining
a function are no part of the policy.  A machine binds names where an assignment is made,
where a loop begins to count, and where a function is defined, and `bindingMachine` does with
these steps what it is told, so that each can be watched.

* `Run.Stays`: the judgement.
* `staying`: policies as accords, and `lasts_iff`: what they come to.
* `bindingMachine_stays`: the machines.
* `Store.Within`, `exec_stays`: the least that is asked, which is that the functions of the
  store and the running calls are of the material.
-/

namespace SpanScript

open Run Accord

/-- What every store of a run has, of a run on programs of a material and on chains that
`C` allows. -/
structure Store.Policy (M : Material) (P : Store → Prop) (C : Chain → Prop) : Prop where
  scopes : ∀ {s}, P s → 0 < s.scopes.size
  running : ∀ {s name}, P s → name ∈ s.calls → M.Name name
  defined : ∀ {s name f}, P s → s.function? name = some f → M.Defines name f
  enter : ∀ {s name f}, P s → s.function? name = some f → C (s.scopes.size :: f.closure)
  rebind : ∀ {s chain x id}, P s → C chain → s.scopeOf? chain x = some id → ∀ v, P (s.put id x v)
  param : ∀ {s id}, P s → 0 < id → ∀ x v, P (s.put id x v)
  remove : ∀ {s}, P s → ∀ id x, P (s.remove id x)
  addScope : ∀ {s}, P s → P s.addScope
  addTensor : ∀ {s}, P s → ∀ T, P (s.addTensor T)
  setCell : ∀ {s}, P s → ∀ ref n v, P (s.setCell ref n v)
  print : ∀ {s}, P s → ∀ text, P (s.print text)
  push : ∀ {s name}, P s → M.Name name → P (s.calling name)
  pop : ∀ {s}, P s → P s.called

/-- Without a declaration only a bound name is assigned to. -/
theorem Store.scopeOf?_of_assignScope {s : Store} {chain : Chain} {x : String} {v : Value}
    {id : Nat} (h : s.assignScope chain x v none = .ok id) : s.scopeOf? chain x = some id := by
  unfold Store.assignScope at h
  split at h
  · next hid _ =>
    split at h
    · cases h
    · split at h <;> cases h
      exact hid
  · cases h

variable {M : Material} {P : Store → Prop} {C : Chain → Prop} {s : Store}

/-! ## Runs -/

namespace Run

variable {α : Type}

/-- What a run comes to that stays in a material: `P` holds of the store. -/
structure Lasts (M : Material) (P : Store → Prop) (x : Except Halt α × Store) : Prop where
  store : P x.2
  blames : ∀ cause loc, x.1 = .error (.fault cause loc) → M.Blames cause loc

/-- A run that stays in a material and keeps `P`. -/
def Stays (M : Material) (P : Store → Prop) (m : Run α) : Prop :=
  ∀ s, P s → Lasts M P (m.run.run s)

def Accord.staying (M : Material) (P : Store → Prop) : Accord where
  Related s t := t = s ∧ P s
  Later _ _ := True
  Halts h h' := h' = h ∧ ∀ cause loc, h = .fault cause loc → M.Blames cause loc
  Excepted _ := False
  refl _ := trivial
  trans _ _ := trivial

theorem lasts_iff {m : Run α} :
    Lasts M P (m.run.run s) ↔ (Accord.staying M P).AgreeAt Any m m s s := by
  unfold AgreeAt
  generalize m.run.run s = x
  obtain ⟨r, t⟩ := x
  constructor
  · intro h
    cases r with
    | ok a => exact .answer trivial ⟨rfl, h.store⟩ trivial
    | error e =>
      exact .halt trivial ⟨rfl, h.store⟩ ⟨rfl, fun cause loc he => h.blames cause loc (he ▸ rfl)⟩
  · rintro (⟨-, ht, -⟩ | ⟨-, ht, he⟩ | hx)
    · exact ⟨ht.2, fun _ _ => nofun⟩
    · exact ⟨ht.2, fun cause loc hf => he.2 cause loc (Except.error.inj hf)⟩
    · exact hx.elim

end Run

/-! ## Policies as accords -/

/-- Runs that stay in a material and keep to a policy. -/
def staying (hP : Store.Policy M P C) : Execution where
  toAccord := .staying M P
  material := M
  move := id
  carry := id
  home := id
  Sees _ := C
  Held := Any
  Allows _ := True
  Returns := Any
  scopes h := by rw [h.1]
  tensors h := by rw [h.1]
  functions h name := by rw [h.1, Option.map_id]; rfl
  calls h := by rw [h.1]
  sees h _ := h
  held _ _ := trivial
  plain _ := trivial
  bound _ _ := trivial
  cell _ _ := trivial
  missing _ _ _ _ _ _ := ⟨rfl, fun _ _ => nofun⟩
  blames h := ⟨rfl, fun _ _ he => by cases he; exact h⟩
  tooDeep := ⟨rfl, fun _ _ => nofun⟩
  printTooLong := ⟨rfl, fun _ _ => nofun⟩
  unfinished := ⟨rfl, fun _ _ => nofun⟩
  allowed _ := trivial
  addTensor h _ _ := ⟨trivial, ⟨by rw [h.1], hP.addTensor h.2 _⟩, trivial⟩
  print _ h text := ⟨trivial, by rw [h.1], hP.print h.2 text⟩
  remove _ h _ _ := ⟨trivial, by rw [h.1], hP.remove h.2 _ _⟩
  carries := Function.relocate_id
  defined h := hP.defined h.2
  addScope h hF := ⟨trivial, ⟨by rw [h.1], hP.addScope h.2⟩, hP.enter h.2 hF⟩
  param h _ hu hc _ x := ⟨trivial, ⟨by rw [hu.1], hP.param hu.2 (hP.scopes h.2) x _⟩, hc⟩
  returns _ _ := trivial
  returning _ _ _ _ := trivial
  running h := hP.running h.2
  uncalled _ _ _ := ⟨rfl, fun _ _ => nofun⟩
  setCell h _ _ _ := ⟨trivial, by rw [h.1], hP.setCell h.2 _ _ _⟩
  rebind h hc _ hid :=
    ⟨trivial, by rw [h.1], hP.rebind h.2 hc (Store.scopeOf?_of_assignScope hid) _⟩

section

variable {α : Type} {hP : Store.Policy M P C} {m : Run α} {Q : Store → α → Prop}

theorem stays_of_agree (h : ∀ s, (staying hP).Agree s Q m m) : Stays M P m :=
  fun s hs => lasts_iff.mpr ((h s).any trivial ⟨rfl, hs⟩)

theorem agree_of_stays (h : Stays M P m) : (staying hP).Agree s Any m m := by
  rintro _ _ - ⟨rfl, ht⟩
  exact lasts_iff.mp (h _ ht)

end

theorem nests_staying (hP : Store.Policy M P C) : (staying hP).Nests where
  home := rfl
  push _ _ hname _ h := ⟨by rw [h.1], hP.push h.2 hname⟩
  sees _ h := h
  hosts _ := ⟨fun _ _ h => ⟨trivial, by rw [h.1], hP.pop h.2⟩, id, id⟩
  held _ := trivial

/-! ## Machines -/

section

variable (hP : Store.Policy M P C) {bind : String → Run Unit → Run Unit}
  (hb : Machine.Binds (staying hP) bind bind) (turns : Nat)
include hb

/-- **The machines of the language stay in a material**, with what is done to bind names left
open. -/
theorem bindingMachine_stays (levels : Nat) {chain : Chain} (hc : C chain) {stmt : Stmt}
    (hs : M.stmt stmt) : Stays M P ((bindingMachine bind turns levels).exec chain stmt) :=
  stays_of_agree fun _ => (Machine.bindingMachine_executes (nests_staying hP) hb turns
    (.refl _ levels)).exec_id rfl hc 0 hs

end

/-! ## Stores of a material -/

/-- The functions of a store and the names of its running calls are of a material. -/
structure Store.Within (M : Material) (s : Store) : Prop where
  scopes : 0 < s.scopes.size
  functions : ∀ f ∈ s.functions, M.Defines f.1 f.2
  running : ∀ name ∈ s.calls, M.Name name

namespace Store

variable {M : Material} {s : Store}

theorem mem_of_function? {name : String} {f : Function} (h : s.function? name = some f) :
    (name, f) ∈ s.functions := by
  obtain ⟨l, r, hl, -⟩ := List.lookup_eq_some_iff.mp h
  exact hl ▸ List.mem_append_right l (List.mem_cons_self ..)

theorem Within.put (h : s.Within M) (id : Nat) (x : String) (v : Value) :
    (s.put id x v).Within M := ⟨(s.size_put id x v).symm ▸ h.scopes, h.functions, h.running⟩

theorem Within.define (h : s.Within M) {name : String} {f : Function} (hf : M.Defines name f) :
    (s.define name f).Within M := by
  refine ⟨h.scopes, fun g hg => ?_, h.running⟩
  rcases List.mem_cons.mp hg with rfl | hg
  · exact hf
  · exact h.functions g (List.mem_filter.mp hg).1

theorem policy_within (M : Material) : Policy M (Within M) fun _ => True where
  scopes h := h.scopes
  running h hname := h.running _ hname
  defined h hf := h.functions _ (mem_of_function? hf)
  enter _ _ := trivial
  rebind h _ _ v := h.put _ _ v
  param h _ x v := h.put _ x v
  remove h id x := ⟨(size_remove _ id x).symm ▸ h.scopes, h.functions, h.running⟩
  addScope h := ⟨by rw [addScope, Array.size_push]; omega, h.functions, h.running⟩
  addTensor h _ := ⟨h.scopes, h.functions, h.running⟩
  setCell h _ _ _ := ⟨h.scopes, h.functions, h.running⟩
  print h _ := ⟨h.scopes, h.functions, h.running⟩
  push h hname := ⟨h.scopes, h.functions, List.forall_mem_cons.mpr ⟨hname, h.running⟩⟩
  pop h := ⟨h.scopes, h.functions, fun name hname => h.running name (List.mem_of_mem_drop hname)⟩

end Store

/-- **A machine stays in every material** that its store is within. -/
theorem exec_stays (M : Material) (turns levels : Nat) (chain : Chain) {stmt : Stmt}
    (hs : M.stmt stmt) : Stays M (Store.Within M) ((machine turns levels).exec chain stmt) := by
  have hb : Machine.Binds (staying (Store.policy_within M)) (fun _ step => step)
      fun _ step => step := by
    refine Machine.binds_id (fun h _ _ _ => ⟨trivial, by rw [h.1], h.2.put _ _ _⟩) ?_
    intro s t chain loc name params returns body h _ hstmt _
    refine ⟨trivial, ?_, h.2.define ⟨loc, hstmt⟩⟩
    rw [h.1]
    exact congrArg (s.define name) (Function.relocate_id _)
  rw [← bindingMachine_id]
  exact bindingMachine_stays (Store.policy_within M) hb turns levels trivial hs

end SpanScript
