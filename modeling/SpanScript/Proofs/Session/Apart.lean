import SpanScript.Proofs.Eval.Staying
import SpanScript.Proofs.Eval.Tracking
import SpanScript.Proofs.Session.Contained

/-!
# Names of functions and names of variables

An assignment to the name of a function is a fault, so one would like no name to be both a
function and a variable of the session.  But only the assignment looks, and it looks before
its value is evaluated: three steps bind a name without a look at the other table.  They
are the assignment of an evaluated value, the first assignment to the counter of a loop, and
the definition of a function.

These steps are watched here.  The refusing machine undoes a step that would make its name
both, and halts in a given way.  Whatever else a program does, parameters, the counts of a
loop after the first, deletions, then keeps the names apart.  And no function ever has the
name of a built-in one, watched or not.

* `Store.Ambiguous`: a name is both.
* `Run.unlessAmbiguous`, `refusingMachine`: the step that is refused, and the machine.
* `Store.policy_apart`: everything but the three steps keeps names apart.
* `bindingMachine_tracked`: the refusing machine runs as the machine, unless it refuses.
* `names_apart`: the sessions.
-/

namespace SpanScript

open Run

namespace Store

/-- A name is both a function and a variable of the session. -/
def Ambiguous (s : Store) (x : String) : Prop :=
  (s.function? x).isSome = true ∧ s.globals.binds x = true

instance (s : Store) : DecidablePred s.Ambiguous := fun x =>
  inferInstanceAs (Decidable ((s.function? x).isSome = true ∧ s.globals.binds x = true))

/-- No function has the name of a built-in one; and no name is both a function and a variable
of the session, where `A` asks for that. -/
structure Apart (A : Prop) (s : Store) : Prop where
  within : s.Within .whole
  builtins : ∀ op : Builtin, s.function? op.name = none
  names : A → ∀ x, ¬ s.Ambiguous x

/-! ## What the session binds -/

section

variable {s t : Store} {A : Prop} {x y : String} {v : Value}

/-- The other names of a scope are bound as before. -/
theorem lookup_put_of_ne (s : Store) (id id' : Nat) (h : y ≠ x) (v : Value) :
    ((s.put id x v).scope id').lookup y = (s.scope id').lookup y := by
  by_cases hid : id = id'
  · subst hid
    by_cases hlt : id < s.scopes.size
    · rw [scope_put_self s hlt, Scope.lookup_put, if_neg h]
    · rw [scope, put, Array.getElem?_modify, if_pos rfl, scope,
        Array.getElem?_eq_none (Nat.not_lt.mp hlt)]
      rfl
  · rw [scope_put_of_ne s hid]

theorem binds_of_scopeOf? {chain : Chain} {id : Nat} (h : s.scopeOf? chain x = some id) :
    (s.scope id).binds x = true := by
  have hfound := List.find?_some h
  exact hfound

theorem binds_remove {id : Nat} (h : (s.remove id x).globals.binds y = true) :
    s.globals.binds y = true := by
  obtain ⟨w, hw⟩ := Option.isSome_iff_exists.mp h
  obtain ⟨l, r, hl, -⟩ := List.lookup_eq_some_iff.mp hw
  have hmem : (y, w) ∈ (s.remove id x).globals :=
    hl ▸ List.mem_append_right l (List.mem_cons_self ..)
  exact List.lookup_isSome_iff.mpr ⟨(y, w), mem_scope_remove hmem, beq_self_eq_true y⟩

/-! ## Changes that keep names apart -/

/-- Names stay apart where the functions stay and no variable of the session is new. -/
theorem Apart.of_binds (h : s.Apart A) (hw : t.Within .whole) (hf : t.functions = s.functions)
    (hb : A → ∀ y, t.globals.binds y = true → s.globals.binds y = true) : t.Apart A where
  within := hw
  builtins op := by rw [function?, hf]; exact h.builtins op
  names ha y hy := by
    obtain ⟨hfunction, hbinds⟩ := hy
    rw [function?, hf] at hfunction
    exact h.names ha y ⟨hfunction, hb ha y hbinds⟩

theorem within_whole (hs : 0 < s.scopes.size) : s.Within .whole :=
  ⟨hs, fun _ _ => ⟨.first, trivial⟩, fun name _ => Material.name_whole name⟩

/-- A name that is bound is bound again. -/
theorem Apart.rebind (h : s.Apart A) {chain : Chain} {id : Nat}
    (hid : s.scopeOf? chain x = some id) (v : Value) : (s.put id x v).Apart A := by
  refine h.of_binds (h.within.put id x v) rfl fun _ y hy => ?_
  by_cases hxy : y = x
  · subst hxy
    by_cases h0 : id = 0
    · subst h0
      exact binds_of_scopeOf? hid
    · rw [globals, scope_put_of_ne s h0] at hy
      exact hy
  · rw [globals, Scope.binds, lookup_put_of_ne s id 0 hxy] at hy
    exact hy

/-- **Everything but the binding of a new name and the definition of a function keeps names
apart.** -/
theorem policy_apart (A : Prop) : Policy .whole (Apart A) fun _ => True where
  scopes h := h.within.scopes
  running h hname := h.within.running _ hname
  defined h hf := h.within.functions _ (mem_of_function? hf)
  enter _ _ := trivial
  rebind h _ hid v := h.rebind hid v
  param := by
    intro s id h hid x v
    refine h.of_binds (h.within.put id x v) rfl fun _ y hy => ?_
    rw [globals, scope_put_of_ne s (Nat.ne_of_gt hid)] at hy
    exact hy
  remove h id x := h.of_binds ((policy_within _).remove h.within id x) rfl fun _ _ => binds_remove
  addScope h := h.of_binds ((policy_within _).addScope h.within) rfl fun _ _ hy => by
    rwa [globals, scope_addScope] at hy
  addTensor h T := h.of_binds ((policy_within _).addTensor h.within T) rfl fun _ _ hy => hy
  setCell h ref n v := h.of_binds ((policy_within _).setCell h.within ref n v) rfl fun _ _ hy => hy
  print h text := h.of_binds ((policy_within _).print h.within text) rfl fun _ _ hy => hy
  push h hname := h.of_binds ((policy_within _).push h.within hname) rfl fun _ _ hy => hy
  pop h := h.of_binds ((policy_within _).pop h.within) rfl fun _ _ hy => hy

/-- A new name is bound that no function has. -/
theorem Apart.put (h : s.Apart A) (id : Nat) (hx : A → ¬ (s.put id x v).Ambiguous x) :
    (s.put id x v).Apart A where
  within := h.within.put id x v
  builtins := h.builtins
  names ha y hy := by
    by_cases hxy : y = x
    · exact hx ha (hxy ▸ hy)
    · obtain ⟨hfunction, hbinds⟩ := hy
      rw [globals, Scope.binds, lookup_put_of_ne s id 0 hxy] at hbinds
      exact h.names ha y ⟨hfunction, hbinds⟩

/-- A function is defined that has the name of no variable and of no built-in function. -/
theorem Apart.define (h : s.Apart A) {name : String} (hop : Builtin.ofName? name = none)
    (f : Function) (hx : A → ¬ (s.define name f).Ambiguous name) : (s.define name f).Apart A where
  within := h.within.define ⟨.first, trivial⟩
  builtins op := by
    rw [function?_define]
    split
    · next hname =>
      -- a built-in function has its name
      have hnone := List.find?_eq_none.mp hop op (Builtin.mem_all op)
      exact absurd (beq_iff_eq.mpr hname) hnone
    · exact h.builtins op
  names ha y hy := by
    by_cases hxy : y = name
    · exact hx ha (hxy ▸ hy)
    · obtain ⟨hfunction, hbinds⟩ := hy
      rw [function?_define, if_neg hxy] at hfunction
      exact h.names ha y ⟨hfunction, hbinds⟩

end

end Store

/-! ## Steps that are refused -/

section

variable (h : Halt)

/-- Does a step that binds a name, unless it would make the name both a function and a variable
of the session: then the step is undone, and the run halts with `h`. -/
def Run.unlessAmbiguous (x : String) (step : Run Unit) : Run Unit := ExceptT.mk do
  let before ← get
  let r ← step.run
  let after ← get
  if after.Ambiguous x then
    set before
    pure (.error h)
  else pure r

/-- The machine of a number of levels that refuses to bind a name so that it is both a function
and a variable of the session. -/
def refusingMachine : Nat → Nat → Machine := bindingMachine (Run.unlessAmbiguous h)

/-- What is done to bind a name is the step that binds it, which does not make the name both
where `A` asks for that, or the step is refused. -/
def Refuses (A : Prop) (bind : String → Run Unit → Run Unit) : Prop :=
  ∀ x step s, ((bind x step).run.run s = step.run.run s ∧
      (A → ¬ (step.run.run s).2.Ambiguous x)) ∨
    (bind x step).run.run s = (.error h, s)

theorem refuses_unlessAmbiguous : Refuses h True (Run.unlessAmbiguous h) := by
  intro x step s
  have hrun : (Run.unlessAmbiguous h x step).run.run s
      = if (step.run.run s).2.Ambiguous x then (.error h, s) else step.run.run s := by
    show (if (step.run.run s).2.Ambiguous x then do
        set s
        pure (.error h)
      else pure (step.run.run s).1 : StateM Store (Except Halt Unit)).run (step.run.run s).2 = _
    split <;> rfl
  rw [hrun]
  split
  · exact .inr rfl
  · next hx => exact .inl ⟨rfl, fun _ => hx⟩

theorem refuses_none : Refuses h False fun _ step => step := fun _ _ _ => .inl ⟨rfl, False.elim⟩

end

/-! ## Machines that refuse -/

theorem Material.blames_whole (cause : Fault) (loc : Location) : Material.whole.Blames cause loc :=
  ⟨Material.place_whole loc, fun x _ => .inl (Material.name_whole x),
    fun _ => ⟨loc, .tensor loc [], .tensor loc [], trivial, nofun⟩⟩

/-- Every run stays among all programs. -/
theorem Run.stays_whole {α : Type} {P : Store → Prop} {m : Run α}
    (h : ∀ s, P s → P (m.run.run s).2) : Stays .whole P m :=
  fun s hs => ⟨h s hs, fun cause loc _ => Material.blames_whole cause loc⟩

theorem Run.store_assign (loc : Location) (chain : Chain) (x : String) (v : Value)
    (declared : Option TypeName) (s : Store) :
    ((Run.assign loc chain x v declared).run.run s).2 = s ∨
      ∃ id, ((Run.assign loc chain x v declared).run.run s).2 = s.put id x v := by
  cases h : s.assignScope chain x v declared with
  | ok id => exact .inr ⟨id, by rw [Run.run_assign_ok h]⟩
  | error cause => exact .inl (by rw [Run.run_assign_error h])

theorem Machine.store_define (chain : Chain) (loc : Location) (name : String)
    (params : List Param) (returns : TypeName) (body : Block) (s : Store) :
    ((define chain loc name params returns body).run.run s).2 = s ∨
      (Builtin.ofName? name = none ∧
        ((define chain loc name params returns body).run.run s).2
          = s.define name ⟨params, returns, body, chain⟩) := by
  unfold define
  cases hop : Builtin.ofName? name with
  | some op => exact .inl rfl
  | none => exact .inr ⟨rfl, rfl⟩

section

variable {h : Halt} {A : Prop} {bind : String → Run Unit → Run Unit} (hb : Refuses h A bind)
include hb

/-- Steps that are refused where they would make a name both keep the names apart. -/
theorem binds_refuses : Machine.Binds (staying (Store.policy_apart A)) bind bind := by
  refine Machine.binds_of_id rfl (fun {_ chain} loc x v declared _ _ => ?_)
    fun {_ chain} loc name params returns body _ _ => ?_
  · refine agree_of_stays (stays_whole fun s hs => ?_)
    rcases hb x (Run.assign loc chain x v declared) s with ⟨he, hx⟩ | he <;> rw [he]
    · rcases Run.store_assign loc chain x v declared s with ht | ⟨id, ht⟩ <;> rw [ht] at hx ⊢
      · exact hs
      · exact hs.put id hx
    · exact hs
  · refine agree_of_stays (stays_whole fun s hs => ?_)
    rcases hb name (Machine.define chain loc name params returns body) s with ⟨he, hx⟩ | he <;>
      rw [he]
    · rcases Machine.store_define chain loc name params returns body s with ht | ⟨hop, ht⟩ <;>
        rw [ht] at hx ⊢
      · exact hs
      · exact hs.define hop _ hx
    · exact hs

/-- The binding of a name is the step, or it is refused. -/
theorem tracks_refused (x : String) (step : Run Unit) :
    Run.Tracks (fun s t => t = s ∧ True) (· = h) (bind x step) step := by
  rintro _ s ⟨rfl, -⟩
  unfold TracksAt
  rcases hb x step s with ⟨he, -⟩ | he <;> rw [he]
  · exact .inr ⟨rfl, rfl, trivial⟩
  · exact .inl ⟨h, rfl, rfl⟩

/-- Names are bound as in the language, unless that is refused. -/
theorem binds_refused :
    Machine.Binds (tracking Store.invariant_true.law (· = h)) bind fun _ step => step :=
  Machine.binds_of_id rfl (fun _ _ _ _ _ _ => tracks_iff.mp (tracks_refused hb _ _))
    fun _ _ _ _ _ _ _ => tracks_iff.mp (tracks_refused hb _ _)

/-- **A machine that refuses runs as the machine of the language, unless it refuses.** -/
theorem bindingMachine_tracked (turns levels : Nat) :
    (bindingMachine bind turns levels).Tracks (fun s t => t = s ∧ True) (· ≠ []) (· = h)
      (machine turns levels) := by
  have hS : (tracking Store.invariant_true.law (· = h)).Nests :=
    nests_tracking _ (fun _ _ _ h => ⟨by rw [h.1], trivial⟩) fun h => ⟨by rw [h.1], trivial⟩
  rw [← bindingMachine_id]
  exact .of_executes (Machine.bindingMachine_executes hS (binds_refused hb) turns (.refl _ _))

end

namespace Session

/-! ## Statements of a session -/

section

variable {h : Halt} {A : Prop} {bind : String → Run Unit → Run Unit} (hb : Refuses h A bind)
include hb

/-- A statement that is run with some steps refused keeps the names apart, and is run as the
statement, unless a step is refused. -/
theorem runBy_refuses {store : Store} (limits : Limits) (hs : store.Apart A) (stmt : Stmt) :
    let refused := runBy (bindingMachine bind limits.turns limits.levels) store stmt
    refused.2.Apart A ∧
      (refused.1 = .error (.ofHalt stmt.location h) ∨
        refused = runStatement limits store stmt) := by
  intro refused
  have hstays : Stays .whole (Store.Apart A)
      ((bindingMachine bind limits.turns limits.levels).exec Store.globalChain stmt) :=
    bindingMachine_stays (Store.policy_apart A) (binds_refuses hb) limits.turns limits.levels
      trivial trivial
  replace hstays := hstays store.counted
    (hs.of_binds (Store.within_whole hs.within.scopes) rfl fun _ _ hy => hy)
  have htracked := (bindingMachine_tracked hb limits.turns limits.levels).exec 0
    (List.cons_ne_nil 0 []) stmt store.counted store.counted ⟨rfl, trivial⟩
  change TracksAt _ _ ((bindingMachine bind limits.turns limits.levels).exec Store.globalChain stmt)
    ((machine limits.turns limits.levels).exec Store.globalChain stmt) _ _ at htracked
  unfold TracksAt at htracked
  rw [← runBy_machine]
  unfold refused runBy
  split
  · exact ⟨hs, .inr rfl⟩
  · generalize ((bindingMachine bind limits.turns limits.levels).exec Store.globalChain
      stmt).run.run store.counted = x at hstays htracked
    generalize ((machine limits.turns limits.levels).exec Store.globalChain stmt).run.run
      store.counted = y at htracked
    obtain ⟨r, t⟩ := x
    obtain ⟨r', t'⟩ := y
    rcases htracked with ⟨_, rfl, rfl⟩ | ⟨rfl, rfl, -⟩
    · exact ⟨hstays.store, .inl rfl⟩
    · cases r' <;> exact ⟨hstays.store, .inr rfl⟩

end

theorem Reachable.apart {s : Session} (h : s.Reachable) : s.store.Apart False := by
  induction h with
  | new file limits =>
    exact ⟨Store.within_whole Nat.one_pos, fun _ => rfl, False.elim⟩
  | @after s stmt _ ih =>
    have hkeeps := (runBy_refuses (refuses_none .unfinished) s.limits ih stmt).1
    rw [bindingMachine_id] at hkeeps
    exact hkeeps
  | flush _ ih => exact ⟨Store.within_whole ih.within.scopes, ih.builtins, False.elim⟩
  | close _ _ => exact ⟨Store.within_whole Nat.one_pos, fun _ => rfl, False.elim⟩

theorem reachable_foldl_after {s : Session} (hs : s.Reachable) (stmts : List Stmt) :
    (stmts.foldl after s).Reachable := by
  induction stmts generalizing s with
  | nil => exact hs
  | cons stmt stmts ih => exact ih (hs.after stmt)

/-- **Names of functions and names of variables.**  In a reachable session no function has the
name of a built-in one.  And if no name is both a function and a variable of the session, then
the next statement leaves it so: it is run as on the machine that refuses to bind a name which
would be both, unless that machine refuses.  Such a machine looks at three steps only, which
are the assignment of an evaluated value, the first assignment to the counter of a loop and the
definition of a function. -/
theorem names_apart {s : Session} (hs : s.Reachable) :
    (∀ op : Builtin, s.store.function? op.name = none) ∧
    ((∀ x, ¬ s.store.Ambiguous x) → ∀ stmt h,
      let refused := runBy (refusingMachine h s.limits.turns s.limits.levels) s.store stmt
      (∀ x, ¬ refused.2.Ambiguous x) ∧
        (refused.1 = .error (.ofHalt stmt.location h) ∨
          refused = runStatement s.limits s.store stmt)) := by
  refine ⟨hs.apart.builtins, fun hnames stmt h => ?_⟩
  have hapart : s.store.Apart True := ⟨hs.apart.within, hs.apart.builtins, fun _ => hnames⟩
  obtain ⟨hafter, hruns⟩ := runBy_refuses (refuses_unlessAmbiguous h) s.limits hapart stmt
  exact ⟨hafter.names trivial, hruns⟩

/-- A variable is declared where there is a function, and the two names stay apart. -/
theorem names_apart_declaration :
    let define : Stmt := .define ⟨1, 1⟩ "f" [] "INT" (.mk ⟨1, 15⟩ [])
    let declare : Stmt := .assign ⟨2, 6⟩ "x" (.literal ⟨2, 10⟩ (.int 1)) (some "INT")
    let s := (start "t").after define
    s.Reachable ∧ (∀ x, ¬ s.store.Ambiguous x) ∧ (s.after declare).store.globals.binds "x" = true ∧
      ∀ x, ¬ (s.after declare).store.Ambiguous x := by
  intro define declare s
  have hs : s.Reachable := .after define (reachable_start "t")
  have hnames : ∀ x, ¬ s.store.Ambiguous x := fun x hx => nomatch hx.2
  refine ⟨hs, hnames, by decide +kernel, ?_⟩
  obtain ⟨hafter, hruns⟩ := (names_apart hs).2 hnames declare .unfinished
  have hnot : (runBy (refusingMachine .unfinished s.limits.turns s.limits.levels) s.store
      declare).1.isOk = true := by decide +kernel
  rcases hruns with hr | hr
  · rw [hr] at hnot
    cases hnot
  · rw [hr] at hafter
    exact hafter

/-- A name comes to be both in three ways: a loop counts by the name of a function, a function
is defined by the name of a variable, and a variable is declared by the name of a function that
its value defines. -/
theorem names_ambiguous :
    let define : Stmt := .define ⟨1, 1⟩ "f" [] "INT" (.mk ⟨1, 15⟩ [])
    let count : Stmt := .forLoop ⟨1, 1⟩ "f" (.literal ⟨1, 8⟩ (.int 1)) (.mk ⟨1, 11⟩ [])
    let declare : Stmt := .assign ⟨1, 6⟩ "f" (.literal ⟨1, 10⟩ (.int 1)) (some "INT")
    let defines : Stmt := .define ⟨1, 1⟩ "g" [] "INT" (.mk ⟨1, 15⟩ [define])
    let declareCall : Stmt := .assign ⟨1, 6⟩ "f" (.call ⟨1, 10⟩ "g" []) (some "INT")
    ∀ stmts ∈ [[define, count], [declare, define], [defines, declareCall]],
      (stmts.foldl after (start "t")).Reachable ∧
        (stmts.foldl after (start "t")).store.Ambiguous "f" := by
  intro define count declare defines declareCall
  have hreach (stmts : List Stmt) : (stmts.foldl after (start "t")).Reachable :=
    reachable_foldl_after (reachable_start "t") stmts
  refine List.forall_mem_cons.mpr ⟨⟨hreach _, ?_⟩, List.forall_mem_cons.mpr ⟨⟨hreach _, ?_⟩,
    List.forall_mem_singleton.mpr ⟨hreach _, ?_⟩⟩⟩ <;> decide +kernel

end Session

end SpanScript
