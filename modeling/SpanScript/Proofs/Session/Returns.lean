import SpanScript.Proofs.Eval.Bodies
import SpanScript.Proofs.Session.Frames

/-!
# Calls that give no value of their own

The body of a function may end without a value: it runs to its end, or it comes to a return
without an expression.  At the end the zero is that of the function that was called.  A
return asks the function table, where the name of the call stands for the function that
has been defined last: it need not be the one whose body runs, for the body, and whatever
it calls, may define another function of that name.

While a body runs its call is the innermost one, and its name has a function, so a return
finds one.  If that function declares the type of the one that was called the call gives
its zero, and otherwise it fails.

* `Leads.knows`: on the way to a statement of the body.
* `calls_give_zero`: both ways to end.
-/

namespace SpanScript

open Machine

theorem resume_returning (v : Value) : ∀ layers : List Layer,
    resume layers (.returning v) = pure (.returning v) := by
  intro layers
  induction layers with
  | nil => rfl
  | cons l layers ih =>
    have hl : l.resume (.returning v) = pure (.returning v) := by
      cases l <;> rfl
    rw [resume, hl, pure_bind]
    exact ih

/-- The zero of a type has that type. -/
theorem Value.kind_name_of_zero? {type : TypeName} {v : Value} (h : Value.zero? type = some v) :
    v.kind.name = type := by
  unfold Value.zero? at h
  by_cases hint : type = Kind.int.name
  · rw [if_pos hint] at h
    cases h
    exact hint.symm
  · rw [if_neg hint] at h
    by_cases hflt : type = Kind.flt.name
    · rw [if_pos hflt] at h
      cases h
      exact hflt.symm
    · rw [if_neg hflt] at h
      by_cases hstr : type = Kind.str.name
      · rw [if_pos hstr] at h
        cases h
        exact hstr.symm
      · rw [if_neg hstr] at h
        cases h

section

variable {turns levels : Nat} {s t u : Store} {loc : Location} {name : String} {f : Function}
  {given : Arguments} {chain : Chain}

/-- When a body begins its call is the innermost one, and the function that was called still
has its name. -/
theorem Machine.Begins.knows (hs : s.Sound True) (hf : s.function? name = some f)
    (h : (machine turns levels).Begins s loc name f given chain t) :
    chain ≠ [] ∧ t.Knows (name :: s.calls) (name :: s.calls) := by
  obtain ⟨u, henter, rfl⟩ := h
  have hknows : s.Knows (name :: s.calls) s.calls :=
    ⟨rfl, List.forall_mem_cons.mpr ⟨Option.isSome_of_eq_some hf, hs.calls⟩⟩
  have hm := machine_tracks_framed .unfinished turns levels
    (List.subset_cons_self name s.calls)
  have htrack := tracks_enter (Store.invariant_knows (name :: s.calls) s.calls).law hm
    (And.intro rfl hknows) loc hf given
  have hchain := enter_eq (congrArg Prod.fst henter)
  obtain ⟨_, _, hfalse⟩ | ⟨-, -, hu⟩ := htrack
  · exact hfalse.elim
  · rw [henter] at hu
    exact ⟨hchain ▸ List.cons_ne_nil _ _, hu.push⟩

/-- On the way through a body its call stays the innermost one, and its name has a function. -/
theorem Leads.knows {running : List String} (hc : chain ≠ []) {levels levels' : Nat}
    {stmts : List Stmt} {stmt : Stmt} {layers : List Layer}
    (h : Leads turns chain levels stmts s levels' stmt t layers) (hs : s.Knows running running) :
    t.Knows running running :=
  h.keeps (Store.invariant_knows running running).law hc
    (fun levels => ⟨_, machine_tracks_framed .unfinished turns levels (List.Subset.refl running)⟩)
    hs

/-- A return without an expression asks the function that has the name of the innermost
call. -/
theorem exec_returnNothing {running : List String} {g : Function} (hc : s.calls = name :: running)
    (hg : s.function? name = some g) :
    ((machine turns (levels + 1)).exec chain (.returnValue loc none)).run.run s
      = ((zeroOf loc name g >>= fun v => pure (.returning v) : Run Completion)).run.run s := by
  rw [exec_machine, execRule, Run.run_bind, Run.run_bind, returned, Run.run_get, hc]
  dsimp only
  rw [hg]

/-- A call whose body has come to a return without an expression, where the name of the call
stands for a function of a type with a zero. -/
theorem Leads.run_call_zero {rloc : Location} {layers : List Layer} {l : Nat} {g : Function}
    {running : List String} {v : Value}
    (h : (machine turns levels).Begins s loc name f given chain t)
    (hleads : Leads turns chain (levels - Weight.body) f.body.statements t (l + 1)
      (.returnValue rloc none) u layers) (hc : u.calls = name :: running)
    (hg : u.function? name = some g) (hv : Value.zero? g.returns = some v) :
    ((machine turns levels).callDefined loc name f given).run.run s
      = (if g.returns = f.returns then .ok v
          else .error (.fault (.returnMismatch name f.returns v.kind) loc), u.called) := by
  have hrun := hleads.run_eq
  rw [← under_machine, Run.run_bind, exec_returnNothing hc hg, zeroOf, hv] at hrun
  have hblock := hrun.trans
    (congrArg (fun m : Run Completion => m.run.run u) (resume_returning v layers))
  rw [h.run_ok hblock, endOfCall, Value.kind_name_of_zero? hv]
  by_cases hgf : g.returns = f.returns
  · rw [if_neg (not_not_intro hgf), if_pos hgf]
    rfl
  · rw [if_pos hgf, if_neg hgf]
    rfl

/-- The same where the name stands for a function of a type without a zero. -/
theorem Leads.run_call_tensor {rloc : Location} {layers : List Layer} {l : Nat} {g : Function}
    {running : List String} (h : (machine turns levels).Begins s loc name f given chain t)
    (hleads : Leads turns chain (levels - Weight.body) f.body.statements t (l + 1)
      (.returnValue rloc none) u layers) (hc : u.calls = name :: running)
    (hg : u.function? name = some g) (hv : Value.zero? g.returns = none) :
    ((machine turns levels).callDefined loc name f given).run.run s
      = (.error (.fault (.mustReturnTensor name) rloc), u.called) := by
  have hrun := hleads.run_eq
  rw [← under_machine, Run.run_bind, exec_returnNothing hc hg, zeroOf, hv] at hrun
  exact h.run_error hrun

end

/-- **A call without a returned expression gives zero**, where its name still stands for a
function of its type.

A function of the table that declares numbers or texts is called, and has bound its
arguments.  If its body runs to the end, the call gives the zero of its type.  If its body
comes to a return without an expression, through any layers of loops and choices and
whatever was run before, then a function has the name of the call.  The call gives the zero
of its type if that function declares the same type, as the function that was called does,
and if it declares another one the call fails. -/
theorem calls_give_zero {turns levels : Nat} {s t u : Store} {loc : Location} {name : String}
    {f : Function} {given : Arguments} {chain : Chain} {zero : Value} (hs : s.Sound True)
    (hf : s.function? name = some f)
    (hz : (f.returns, zero) ∈ [("INT", .int 0), ("FLT", .flt 0), ("STR", .str "")])
    (h : (machine turns levels).Begins s loc name f given chain t) :
    let r := ((machine turns levels).callDefined loc name f given).run.run s
    ((((machine turns levels).under Weight.body).block chain f.body.statements).run.run t
      = (.ok .normal, u) → r = (.ok zero, u.called)) ∧
    ∀ l rloc layers, Leads turns chain (levels - Weight.body) f.body.statements t (l + 1)
        (.returnValue rloc none) u layers →
      ∃ g, u.function? name = some g ∧
        (g.returns = f.returns → r = (.ok zero, u.called)) ∧
        (g.returns ≠ f.returns →
          r = (.error (.fault (.mustReturnTensor name) rloc), u.called) ∨
          ∃ kind, kind.name = g.returns ∧
            r = (.error (.fault (.returnMismatch name f.returns kind) loc), u.called)) := by
  have hzero : Value.zero? f.returns = some zero := by
    simp only [List.mem_cons, Prod.mk.injEq, List.not_mem_nil, or_false] at hz
    obtain ⟨hr, rfl⟩ | ⟨hr, rfl⟩ | ⟨hr, rfl⟩ := hz <;> rw [hr] <;> rfl
  refine ⟨fun hblock => ?_, fun l rloc layers hleads => ?_⟩
  · rw [h.run_ok hblock, endOfCall, zeroOf, hzero]
    rfl
  · obtain ⟨hc, hbegun⟩ := h.knows hs hf
    have hknows := hleads.knows hc hbegun
    obtain ⟨g, hg⟩ := Option.isSome_iff_exists.mp (hknows.functions name List.mem_cons_self)
    refine ⟨g, hg, fun hsame => ?_, fun hother => ?_⟩
    · have hrun := hleads.run_call_zero h hknows.calls hg (hsame ▸ hzero)
      rw [if_pos hsame] at hrun
      exact hrun
    · cases hv : Value.zero? g.returns with
      | none => exact .inl (hleads.run_call_tensor h hknows.calls hg hv)
      | some v =>
        have hrun := hleads.run_call_zero h hknows.calls hg hv
        rw [if_neg hother] at hrun
        exact .inr ⟨v.kind, Value.kind_name_of_zero? hv, hrun⟩

/-- A function that returns in a choice and otherwise runs to its end gives zero both ways. -/
theorem calls_give_zero_choice :
    let body : Block := .mk ⟨1, 16⟩ [.ifElse ⟨1, 18⟩
      [.mk (.name ⟨1, 21⟩ "n") (.mk ⟨1, 24⟩ [.returnValue ⟨1, 26⟩ none])] none]
    let f : Function := ⟨[⟨"INT", "n", none⟩], "INT", body, Store.globalChain⟩
    let s := Store.initial.define "f" f
    let call (n : Int) := (((machine 9 30).callDefined ⟨2, 1⟩ "f" f ⟨[.int n], []⟩).run.run s).1
    call 1 = .ok (.int 0) ∧ call 0 = .ok (.int 0) := by
  intro body f s call
  have hs : s.Sound True := Store.sound_initial.define "f"
    ⟨List.cons_ne_nil _ _, fun id hid => List.mem_singleton.mp hid ▸ Nat.one_pos⟩ fun _ => trivial
  have hf : s.function? "f" = some f := by rw [Store.function?_define, if_pos rfl]
  have hz : (f.returns, Value.int 0) ∈ [("INT", .int 0), ("FLT", .flt 0), ("STR", .str "")] :=
    List.mem_cons_self
  let begun (n : Int) : Store := (s.addScope.put 1 "n" (.int n)).calling "f"
  have hbegins (n : Int) : (machine 9 30).Begins s ⟨2, 1⟩ "f" f ⟨[.int n], []⟩ [1, 0] (begun n) :=
    ⟨_, rfl, rfl⟩
  constructor
  · obtain ⟨-, hreturn⟩ := calls_give_zero (u := begun 1) hs hf hz (hbegins 1)
    obtain ⟨g, hg, hzero, -⟩ := hreturn 23 ⟨1, 26⟩ _
      (.inside_first (.choice (.here rfl)) (.first _ _ _ _))
    have hgf : g = f := Option.some.inj (hg.symm.trans hf)
    exact congrArg Prod.fst (hzero (congrArg Function.returns hgf))
  · obtain ⟨hend, -⟩ := calls_give_zero (u := begun 0) hs hf hz (hbegins 0)
    exact congrArg Prod.fst (hend rfl)

/-- `FUNC f(): INT { FUNC f(): STR { RETURN("x") }; RETURN() }`, called: the name of the call
stands for the function that the body has defined, and its zero is no integer. -/
theorem zero_of_another :
    let inner : Block := .mk ⟨1, 31⟩ [.returnValue ⟨1, 33⟩ (some (.literal ⟨1, 40⟩ (.str "x")))]
    let body : Block := .mk ⟨1, 15⟩
      [.define ⟨1, 17⟩ "f" [] "STR" inner, .returnValue ⟨1, 49⟩ none]
    let f : Function := ⟨[], "INT", body, Store.globalChain⟩
    let s := Store.initial.define "f" f
    let t := s.addScope.calling "f"
    let u := t.define "f" ⟨[], "STR", inner, [1, 0]⟩
    (machine 9 30).Begins s ⟨2, 10⟩ "f" f ⟨[], []⟩ [1, 0] t ∧
      (∃ layers, Leads 9 [1, 0] 27 body.statements t 27 (.returnValue ⟨1, 49⟩ none) u layers) ∧
      ((machine 9 30).callDefined ⟨2, 10⟩ "f" f ⟨[], []⟩).run.run s
        = (.error (.fault (.returnMismatch "f" "INT" .str) ⟨2, 10⟩), u.called) := by
  intro inner body f s t u
  have hdefine : ((machine 9 27).block [1, 0] [.define ⟨1, 17⟩ "f" [] "STR" inner]).run.run t
      = (.ok .normal, u) := rfl
  exact ⟨⟨_, rfl, rfl⟩, ⟨_, .here hdefine⟩, rfl⟩

end SpanScript
