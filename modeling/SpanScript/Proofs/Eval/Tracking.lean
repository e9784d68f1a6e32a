import SpanScript.Proofs.Eval.Guarded
import SpanScript.Proofs.Eval.Statements
import SpanScript.Proofs.Store.Extension

/-!
# Runs that keep stores related

Two runs may start from two stores that differ in what no rule looks at, or be run by
two machines of which one can do more.  `Tracks I X m m'` says that from stores related
by `I` the run `m'` ends as `m` does, and leaves the two stores related by `I` again.
Halts of `m` that `X` allows are excepted: they are the ones that the machine of `m'` may
not have.

What `I` has to be is a `Law`: stores related by it show the same scopes, tensors,
functions and running calls, and stay related when both are changed alike, by a piece of
program that sees a chain of scopes which `C` allows.  An invariant of stores is a law of
two runs on the same store.  Every law is an accord, so that every rule tracks itself.

A call of a function of the program is left open in the rule of expressions, and so is a
return in the rule of statements, so that the second machine may watch them or do them in
its own way.

* `Run.Tracks`, `Machine.Tracks`: runs, and machines, of which one tracks the other.
* `tracking`: laws as accords, and `tracks_iff`, `Tracks.executes`: what they come to.
* `tracks_callDefinedBy`, `tracks_evalBy`, `tracks_execBy`: the rules.
* `machine_tracks`: the machines of the language.
-/

namespace SpanScript

open Run Accord

/-! ## Laws -/

/-- A relation between stores that rules do not tell apart, and that lasts when both are
changed alike on chains which `C` allows. -/
structure Store.Law (I : Store → Store → Prop) (C : Chain → Prop) : Prop where
  scopes : ∀ {s t}, I s t → t.scopes = s.scopes
  tensors : ∀ {s t}, I s t → t.tensors = s.tensors
  functions : ∀ {s t}, I s t → t.functions = s.functions
  calls : ∀ {s t}, I s t → t.calls = s.calls
  nonempty : ∀ {chain}, C chain → chain ≠ []
  enter : ∀ {s t name f}, I s t → s.function? name = some f → C (s.scopes.size :: f.closure)
  put : ∀ {s t chain id}, I s t → C chain → id ∈ chain → ∀ x v, I (s.put id x v) (t.put id x v)
  remove : ∀ {s t chain id}, I s t → C chain → id ∈ chain → ∀ x, I (s.remove id x) (t.remove id x)
  addScope : ∀ {s t}, I s t → I s.addScope t.addScope
  addTensor : ∀ {s t}, I s t → ∀ T, I (s.addTensor T) (t.addTensor T)
  setCell : ∀ {s t}, I s t → ∀ ref n v, I (s.setCell ref n v) (t.setCell ref n v)
  define : ∀ {s t chain name}, I s t → C chain → Builtin.ofName? name = none →
    ∀ params returns body, I (s.define name ⟨params, returns, body, chain⟩)
      (t.define name ⟨params, returns, body, chain⟩)
  print : ∀ {s t}, I s t → ∀ text, I (s.print text) (t.print text)

/-- What every store of a run has, of a run on chains that `C` allows. -/
structure Store.Invariant (P : Store → Prop) (C : Chain → Prop) : Prop where
  nonempty : ∀ {chain}, C chain → chain ≠ []
  enter : ∀ {s name f}, P s → s.function? name = some f → C (s.scopes.size :: f.closure)
  put : ∀ {s chain id}, P s → C chain → id ∈ chain → ∀ x v, P (s.put id x v)
  remove : ∀ {s chain id}, P s → C chain → id ∈ chain → ∀ x, P (s.remove id x)
  addScope : ∀ {s}, P s → P s.addScope
  addTensor : ∀ {s}, P s → ∀ T, P (s.addTensor T)
  setCell : ∀ {s}, P s → ∀ ref n v, P (s.setCell ref n v)
  define : ∀ {s chain name}, P s → C chain → Builtin.ofName? name = none →
    ∀ params returns body, P (s.define name ⟨params, returns, body, chain⟩)
  print : ∀ {s}, P s → ∀ text, P (s.print text)

namespace Store

/-- Two runs on the same store, which has what all their stores have. -/
theorem Invariant.law {P : Store → Prop} {C : Chain → Prop} (hP : Invariant P C) :
    Law (fun s t => t = s ∧ P s) C where
  scopes h := by rw [h.1]
  tensors h := by rw [h.1]
  functions h := by rw [h.1]
  calls h := by rw [h.1]
  nonempty := hP.nonempty
  enter h hf := hP.enter h.2 hf
  put h hc hid x v := ⟨by rw [h.1], hP.put h.2 hc hid x v⟩
  remove h hc hid x := ⟨by rw [h.1], hP.remove h.2 hc hid x⟩
  addScope h := ⟨by rw [h.1], hP.addScope h.2⟩
  addTensor h T := ⟨by rw [h.1], hP.addTensor h.2 T⟩
  setCell h ref n v := ⟨by rw [h.1], hP.setCell h.2 ref n v⟩
  define h hc hname params returns body :=
    ⟨by rw [h.1], hP.define h.2 hc hname params returns body⟩
  print h text := ⟨by rw [h.1], hP.print h.2 text⟩

theorem invariant_true : Invariant (fun _ => True) (· ≠ []) where
  nonempty h := h
  enter _ _ := List.cons_ne_nil _ _
  put _ _ _ _ _ := trivial
  remove _ _ _ _ := trivial
  addScope _ := trivial
  addTensor _ _ := trivial
  setCell _ _ _ _ := trivial
  define _ _ _ _ _ _ := trivial
  print _ _ := trivial

/-! ## The scope that is changed -/

variable {s : Store} {chain : Chain} {x : String} {id : Nat}

theorem mem_of_scopeOf? (h : s.scopeOf? chain x = some id) : id ∈ chain :=
  List.mem_of_find?_eq_some h

theorem mem_of_assignScope {v : Value} {declared : Option TypeName}
    (h : s.assignScope chain x v declared = .ok id) (hc : chain ≠ []) : id ∈ chain := by
  unfold Store.assignScope at h
  split at h
  · next hid _ =>
    split at h
    · cases h
    · split at h <;> cases h
      exact mem_of_scopeOf? hid
  · split at h
    · cases h
    · split at h
      · cases h
      · -- a name that is not bound yet is bound in the innermost scope
        obtain ⟨first, rest, rfl⟩ := List.exists_cons_of_ne_nil hc
        cases h
        exact List.mem_cons_self

theorem mem_of_deleteScope (h : s.deleteScope chain x = .ok id) : id ∈ chain := by
  unfold Store.deleteScope at h
  split at h <;> cases h
  exact mem_of_scopeOf? ‹_›

end Store

variable {I J : Store → Store → Prop} {C : Chain → Prop} {X : Halt → Prop} {s t : Store}

/-! ## Runs -/

namespace Run

variable {α β : Type} {m m' : Run α}

/-- From the stores `s` and `t` the run `m'` ends as `m` does, with stores that `I` relates,
or `m` halts in a way that `X` excepts. -/
def TracksAt (I : Store → Store → Prop) (X : Halt → Prop) (m m' : Run α) (s t : Store) : Prop :=
  (∃ h, (m.run.run s).1 = .error h ∧ X h) ∨
    ((m'.run.run t).1 = (m.run.run s).1 ∧ I (m.run.run s).2 (m'.run.run t).2)

/-- From stores that `I` relates, `m'` ends as `m` does and `I` relates what they leave. -/
def Tracks (I : Store → Store → Prop) (X : Halt → Prop) (m m' : Run α) : Prop :=
  ∀ s t, I s t → TracksAt I X m m' s t

def Accord.keeping (I : Store → Store → Prop) (X : Halt → Prop) : Accord where
  Related := I
  Later _ _ := True
  Halts h h' := h' = h
  Excepted := X
  refl _ := trivial
  trans _ _ := trivial

theorem tracksAt_iff : TracksAt I X m m' s t ↔ (Accord.keeping I X).AgreeAt Any m m' s t := by
  unfold TracksAt AgreeAt
  generalize m.run.run s = x
  generalize m'.run.run t = y
  obtain ⟨r, u⟩ := x
  obtain ⟨r', v⟩ := y
  constructor
  · rintro (⟨h, rfl, hX⟩ | ⟨rfl, hI⟩)
    · exact .excepted hX
    · cases r' with
      | ok a => exact .answer trivial hI trivial
      | error h => exact .halt trivial hI rfl
  · rintro (⟨-, hI, -⟩ | ⟨-, hI, rfl⟩ | hX)
    · exact .inr ⟨rfl, hI⟩
    · exact .inr ⟨rfl, hI⟩
    · exact .inl ⟨_, rfl, hX⟩

theorem tracks_iff : Tracks I X m m' ↔ (Accord.keeping I X).Agree s Any m m' :=
  forall₂_congr fun _ _ => ⟨fun h _ hI => tracksAt_iff.mp (h hI),
    fun h hI => tracksAt_iff.mpr (h trivial hI)⟩

theorem TracksAt.imp (h : TracksAt J X m m' s t) (hJ : ∀ u v, J u v → I u v) :
    TracksAt I X m m' s t := h.imp_right fun h => ⟨h.1, hJ _ _ h.2⟩

/-- A run on a store that passes a guard is tracked by the guarded run. -/
theorem TracksAt.guarded {P : Store → Prop} {p : Store → Store → Prop} [DecidableRel p]
    (hm : TracksAt (fun s t => t = s ∧ P s) X m m' s s) (h : Halt)
    (hp : P (m.run.run s).2 → p s (m.run.run s).2) :
    TracksAt (fun s t => t = s ∧ P s) X m (guarded p h m') s s := by
  refine hm.imp_right fun ⟨hr, ht, hP⟩ => ?_
  rw [run_guarded, if_pos (ht ▸ hp hP)]
  exact ⟨hr, ht, hP⟩

theorem tracks_pure (a : α) : Tracks I X (pure a) (pure a) := fun _ _ hI => .inr ⟨rfl, hI⟩

theorem tracks_throw (h : Halt) : Tracks I X (throw h : Run α) (throw h) :=
  fun _ _ hI => .inr ⟨rfl, hI⟩

theorem tracks_fail (cause : Fault) (loc : Location) :
    Tracks I X (fail cause loc : Run α) (fail cause loc) := tracks_throw _

/-- Two runs that read the store go on with what each has read. -/
theorem TracksAt.get_left {k : Store → Run α} {m' : Run α} (h : TracksAt I X (k s) m' s t) :
    TracksAt I X (MonadState.get >>= k) m' s t := h

theorem TracksAt.get_right {m : Run α} {k : Store → Run α} (h : TracksAt I X m (k t) s t) :
    TracksAt I X m (MonadState.get >>= k) s t := h

theorem Tracks.bind {k k' : α → Run β} (h : Tracks I X m m')
    (h' : ∀ a, Tracks I X (k a) (k' a)) : Tracks I X (m >>= k) (m' >>= k') := fun s t hI =>
  tracksAt_iff.mpr ((tracksAt_iff.mp (h s t hI)).bind fun a u v _ huv _ =>
    tracksAt_iff.mp (h' a u v huv))

theorem tracks_ite {c : Prop} [Decidable c] {n n' : Run α} (h : Tracks I X m m')
    (h' : Tracks I X n n') : Tracks I X (if c then m else n) (if c then m' else n') := by
  split
  · exact h
  · exact h'

end Run

/-! ## Laws as accords -/

/-- Runs that keep stores related by a law, on all programs. -/
def tracking (hI : Store.Law I C) (X : Halt → Prop) : Execution where
  toAccord := .keeping I X
  material := .whole
  move := id
  carry := id
  home := id
  Sees _ := C
  Held := Any
  Allows _ := True
  Returns := Any
  scopes := hI.scopes
  tensors := hI.tensors
  functions h name := by rw [Store.function?, hI.functions h, Option.map_id]; rfl
  sees h _ := h
  held _ _ := trivial
  plain _ := trivial
  bound _ _ := trivial
  cell _ _ := trivial
  missing _ _ _ _ _ _ := rfl
  blames _ := rfl
  tooDeep := rfl
  printTooLong := rfl
  unfinished := rfl
  allowed _ := trivial
  addTensor h _ _ := ⟨trivial, hI.addTensor h _, trivial⟩
  print _ h text := ⟨trivial, hI.print h text⟩
  remove _ h hc hid := ⟨trivial, hI.remove h hc (Store.mem_of_deleteScope hid) _⟩
  carries := Function.relocate_id
  defined _ _ := ⟨.first, trivial⟩
  addScope h hF := ⟨trivial, hI.addScope h, hI.enter h hF⟩
  param _ _ h hc _ x := ⟨trivial, hI.put h hc List.mem_cons_self x _, hc⟩
  returns _ _ := trivial
  returning _ _ _ _ := trivial
  calls := hI.calls
  running _ _ := Material.name_whole _
  uncalled _ _ _ := rfl
  setCell h _ _ _ := ⟨trivial, hI.setCell h _ _ _⟩
  rebind h hc _ hid := ⟨trivial, hI.put h hc (Store.mem_of_assignScope hid (hI.nonempty hc)) _ _⟩

/-- Names are bound alike. -/
theorem binds_tracking (hI : Store.Law I C) :
    Machine.Binds (tracking hI X) (fun _ step => step) fun _ step => step := by
  refine Machine.binds_id (fun h hc _ hid => ?_) ?_
  · exact ⟨trivial, hI.put h hc (Store.mem_of_assignScope hid (hI.nonempty hc)) _ _⟩
  · intro s t chain loc name params returns body h hc _ hname
    refine ⟨trivial, ?_⟩
    show I _ (t.define name (Function.relocate id _))
    rw [Function.relocate_id]
    exact hI.define h hc hname params returns body

/-- With one more running call the stores are related as before. -/
theorem nests_tracking (hI : Store.Law I C)
    (hpush : ∀ name {s t}, I s t → I (s.calling name) (t.calling name))
    (hpop : ∀ {s t}, I s t → I s.called t.called) : (tracking hI X).Nests where
  home := rfl
  push _ _ _ _ h := hpush _ h
  sees _ h := h
  hosts _ := ⟨fun _ _ h => ⟨trivial, hpop h⟩, id, id⟩
  held _ := trivial

/-- A rule that is in accord tracks itself. -/
theorem tracks_of_agree {α : Type} (hI : Store.Law I C) {m m' : Run α} {Q : Store → α → Prop}
    (h : ∀ s, (tracking hI X).Agree s Q m m') : Run.Tracks I X m m' :=
  fun s _ hst => tracksAt_iff.mpr ((h s).any trivial hst)

theorem tracksAt_of_agreeAt {α : Type} {hI : Store.Law I C} {m m' : Run α} {Q : Store → α → Prop}
    (h : (tracking hI X).AgreeAt Q m m' s t) : TracksAt I X m m' s t :=
  tracksAt_iff.mpr (Ends.imp h trivial fun _ _ _ _ => trivial)

/-! ## Machines -/

namespace Machine

variable {m m' : Machine} {chain : Chain}

/-- A machine that is tracked by another one, on chains that `C` allows. -/
structure Tracks (I : Store → Store → Prop) (C : Chain → Prop) (X : Halt → Prop)
    (m m' : Machine) : Prop where
  levels : Reaches X m.levels m'.levels
  eval : ∀ n {chain}, C chain → ∀ e, Run.Tracks I X (m.evalUnder n chain e) (m'.evalUnder n chain e)
  exec : ∀ n {chain}, C chain → ∀ s, Run.Tracks I X (m.execUnder n chain s) (m'.execUnder n chain s)

theorem Tracks.under (h : m.Tracks I C X m') (n : Nat) : (m.under n).Tracks I C X (m'.under n) :=
  ⟨h.levels.sub n, fun _ => h.eval _, fun _ => h.exec _⟩

/-- A machine that is tracked runs everything alike. -/
theorem Tracks.executes (h : m.Tracks I C X m') (hI : Store.Law I C) :
    Executes (tracking hI X) m m' :=
  executes_of_id rfl h.levels (fun n _ _ e hc _ => tracks_iff.mp (h.eval n hc e))
    fun n _ _ st hc _ => (tracks_iff.mp (h.exec n hc st)).imp fun _ _ _ _ _ _ => trivial

theorem Tracks.of_executes {hI : Store.Law I C} (h : Executes (tracking hI X) m m') :
    m.Tracks I C X m' :=
  ⟨h.levels, fun n _ hc _ => tracks_of_agree hI fun _ => h.eval_id rfl hc n trivial,
    fun n _ hc _ => tracks_of_agree hI fun _ => h.exec_id rfl hc n trivial⟩

theorem tracks_integer (loc : Location) (rule : String) (v : Value) :
    Run.Tracks I X (integer loc rule v) (integer loc rule v) := by
  cases v with
  | int n => exact tracks_pure n
  | _ => exact tracks_fail _ _

theorem tracks_zeroOf (loc : Location) (name : String) (f : Function) :
    Run.Tracks I X (zeroOf loc name f) (zeroOf loc name f) := by
  unfold zeroOf
  cases Value.zero? f.returns with
  | some v => exact tracks_pure v
  | none => exact tracks_fail _ _

/-- What is entered is a new scope in front of the scopes of the function. -/
theorem enter_eq {s : Store} {loc : Location} {name : String} {f : Function} {given : Arguments}
    (h : ((m.enter loc name f given).run.run s).1 = .ok chain) :
    chain = s.scopes.size :: f.closure := by
  unfold enter at h
  split at h
  · cases h
  · change ((do
      let left ← m.bindParams loc name s.scopes.size (s.scopes.size :: f.closure) f.params
        given.positional given.named
      if left.isEmpty then pure (s.scopes.size :: f.closure)
      else Run.fail _ loc : Run Chain).run.run s.addScope).1 = _ at h
    rw [run_bind] at h
    generalize (m.bindParams loc name s.scopes.size (s.scopes.size :: f.closure) f.params
      given.positional given.named).run.run s.addScope = x at h
    obtain ⟨_ | left, t⟩ := x
    · cases h
    · dsimp only at h
      split at h <;> cases h
      rfl

section

variable (hI : Store.Law I C)
include hI

theorem given_tracking (given : Arguments) : Given (tracking hI X).toEvaluation s given :=
  ⟨fun _ _ => trivial, fun _ _ => ⟨trivial, Material.name_whole _⟩⟩

theorem tracks_newTensor (T : Tensor) : Run.Tracks I X (newTensor T) (newTensor T) := by
  intro s t h
  unfold TracksAt newTensor
  rw [run_get, run_get, hI.tensors h]
  exact .inr ⟨rfl, hI.addTensor h T⟩

theorem tracks_readCell (ref : TensorRef) (offset : Nat) :
    Run.Tracks I X (readCell ref offset) (readCell ref offset) := by
  intro s t h
  unfold TracksAt readCell
  rw [run_get, run_get, Store.tensor_congr (hI.tensors h)]
  cases (s.tensor ref).cells[offset]? with
  | some v => exact tracks_pure v s t h
  | none => exact tracks_throw _ s t h

theorem tracks_readCounter (loc : Location) (counter : String) :
    Run.Tracks I X (readCounter chain loc counter) (readCounter chain loc counter) :=
  tracks_of_agree hI fun _ =>
    agree_readCounter (S := tracking hI X) (Material.place_whole loc) (Material.name_whole counter)

theorem tracks_assign (hc : C chain) (loc : Location) (x : String) (v : Value)
    (declared : Option TypeName) :
    Run.Tracks I X (Run.assign loc chain x v declared) (Run.assign loc chain x v declared) :=
  tracks_of_agree hI fun _ => (binds_tracking hI).assign hc (Material.place_whole loc)
    (Material.name_whole x) trivial fun type _ => .inr (Material.name_whole type)

/-! ## Calls -/

section

variable (hm : m.Tracks I C X m') {name : String} {f : Function}
include hm

/-- Two calls of a function of the table enter the same scopes. -/
theorem tracks_enter (h : I s t) (loc : Location) (hf : s.function? name = some f)
    (given : Arguments) :
    TracksAt I X (m.enter loc name f given) (m'.enter loc name f given) s t := by
  have hagree := agreeAt_enter (S := (tracking hI X).toCalling) (hm.executes hI).toEvaluates h
    (Material.place_whole loc) (Material.name_whole name) hf (given_tracking hI given)
  have hsame : f.relocate (tracking hI X).home = f := f.relocate_id
  rw [hsame] at hagree
  exact tracksAt_of_agreeAt hagree

/-- A call of a function of the table, from what is done to run its body.  Meanwhile the
stores may be related in another way. -/
theorem tracks_callDefinedBy {body : Chain → List Stmt → Run Completion}
    (hbody : ∀ {chain}, C chain → ∀ stmts,
      Run.Tracks J X ((m.under Weight.body).block chain stmts) (body chain stmts))
    (hpush : ∀ {s t}, I s t → J (s.calling name) (t.calling name))
    (hpop : ∀ {s t}, J s t → I s.called t.called) (h : I s t) (loc : Location)
    (hf : s.function? name = some f) (given : Arguments) :
    TracksAt I X (m.callDefined loc name f given) (m'.callDefinedBy body loc name f given) s t := by
  have hhosts : (tracking hI X).Hosts (.keeping J X) name :=
    { pop := fun _ _ hJ => ⟨trivial, hpop hJ⟩, halts := id, excepted := id }
  have hsame : f.relocate (tracking hI X).home = f := f.relocate_id
  have hrun {chain : Chain} {u v : Store} (hc : C chain) (huv : I u v) :
      (Accord.keeping J X).AgreeAt Any ((m.under Weight.body).block chain f.body.statements)
        (body chain (f.relocate (tracking hI X).home).body.statements)
        (u.calling name) (v.calling name) := by
    rw [hsame]
    exact tracksAt_iff.mp (hbody hc f.body.statements _ _ (hpush huv))
  have hagree := agreeAt_callDefinedBy (S := (tracking hI X).toCalling) (Material.place_whole loc)
    (hm.executes hI).toEvaluates hhosts h (Material.name_whole name) hf (given_tracking hI given)
    (fun hc _ huv => hrun hc huv) fun _ _ _ => trivial
  rw [hsame, callDefinedBy_block] at hagree
  exact tracksAt_of_agreeAt hagree

end

/-! ## Rules -/

variable (hm : m.Tracks I C X m') (hc : C chain)
include hm hc

theorem tracks_test (e : Expr) : Run.Tracks I X (m.test chain e) (m'.test chain e) :=
  tracks_of_agree hI fun _ => agree_test_id rfl (hm.executes hI) hc trivial

theorem tracks_block (stmts : List Stmt) :
    Run.Tracks I X (m.block chain stmts) (m'.block chain stmts) :=
  tracks_of_agree hI fun _ => agree_block_id rfl (hm.executes hI) hc fun _ _ => trivial

/-- **The rule of expressions keeps stores related.** -/
theorem tracks_evalBy {defined : Location → String → Function → Arguments → Run Value}
    (hd : ∀ {s t}, I s t → ∀ loc {name f}, s.function? name = some f → ∀ given,
      TracksAt I X (m.callDefined loc name f given) (defined loc name f given) s t) (e : Expr) :
    Run.Tracks I X (m.evalRule chain e) (m'.evalBy defined chain e) := by
  have hcalls : Dispatches (tracking hI X).toEvaluation m.callDefined defined := by
    intro s t loc name args F given h _ hf _
    show (tracking hI X).AgreeAt Any _ (defined loc name F given) s t
    exact tracksAt_iff.mp (hd h loc hf given)
  rw [← evalBy_callDefined]
  exact tracks_of_agree hI fun _ => agree_evalBy_id (hm.executes hI).toEvaluates hc hcalls rfl
    trivial

theorem tracks_returned (loc : Location) (value : Option Expr) :
    Run.Tracks I X (m.returned chain loc value) (m'.returned chain loc value) :=
  tracks_of_agree hI fun _ => agree_returned_id rfl (hm.executes hI) hc trivial

/-- **The rule of statements keeps stores related.** -/
theorem tracks_execBy {returned : Location → Option Expr → Run Value}
    (hr : ∀ loc value, Run.Tracks I X (m.returned chain loc value) (returned loc value))
    (turns : Nat) (s : Stmt) :
    Run.Tracks I X (m.execRule turns chain s) (m'.execBy returned turns chain s) := by
  rw [← execBy_returned]
  exact tracks_of_agree hI fun _ => agree_execWith_id rfl (hm.executes hI) hc (binds_tracking hI)
    (fun loc value _ => tracks_iff.mp (hr loc value)) turns trivial

end

end Machine

/-- A built-in function that is given values. -/
theorem Builtin.tracks_apply (hI : Store.Law I C) {levels levels' : Nat}
    (hl : Reaches X levels levels') (loc : Location) {op : Builtin} (hop : op.takesName = false)
    (vs : List Value) : Run.Tracks I X (op.apply levels loc vs) (op.apply levels' loc vs) :=
  tracks_of_agree hI fun _ => Builtin.agree_apply (tracking hI X).toEvaluation
    (Material.place_whole loc) hl trivial hop fun _ _ => trivial

/-! ## The machines of the language -/

theorem levels_machine (turns levels : Nat) : (machine turns levels).levels = levels - 1 := by
  cases levels <;> rfl

/-- A machine with levels passed over is the machine of the levels that are left. -/
theorem under_machine (turns : Nat) : ∀ extra levels : Nat,
    (machine turns levels).under extra = machine turns (levels - extra) := by
  intro extra
  induction extra with
  | zero =>
    intro levels
    show Machine.mk ((machine turns levels).levels - 0)
      (fun n => (machine turns levels).evalUnder (0 + n))
      (fun n => (machine turns levels).execUnder (0 + n)) = _
    simp only [Nat.zero_add, Nat.sub_zero]
  | succ extra ih =>
    intro levels
    cases levels with
    | zero =>
      rw [Nat.zero_sub]
      exact congrArg (Machine.mk · _ _) (Nat.zero_sub (extra + 1))
    | succ levels =>
      show Machine.mk ((machine turns (levels + 1)).levels - (extra + 1))
        (fun n => (machine turns (levels + 1)).evalUnder (extra + 1 + n))
        (fun n => (machine turns (levels + 1)).execUnder (extra + 1 + n)) = _
      rw [Nat.add_sub_add_right, ← ih]
      simp only [Nat.add_right_comm extra 1, evalUnder_machine, execUnder_machine, Machine.under,
        levels_machine]
      congr 1
      omega

/-- **A machine is tracked by every machine of no fewer levels**, and by itself only where
going too deep is not excepted. -/
theorem machine_tracks (hI : Store.Law I C)
    (hpush : ∀ name {s t}, I s t → I (s.calling name) (t.calling name))
    (hpop : ∀ {s t}, I s t → I s.called t.called) (turns : Nat) {levels levels' : Nat}
    (hl : Reaches X levels levels') :
    (machine turns levels).Tracks I C X (machine turns levels') :=
  .of_executes (Machine.machine_executes (nests_tracking hI hpush hpop) (binds_tracking hI)
    turns hl)

end SpanScript
