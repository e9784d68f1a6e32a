import SpanScript.Proofs.Eval.Bodies
import SpanScript.Proofs.Session.Contained
import SpanScript.Proofs.Session.InTurn

/-!
# Breaks leave as many loops as they count

A break counts the loops that it leaves, from the innermost one out.  If it is in as many,
these loops end, nothing else of their blocks is run and no counter of theirs is touched,
and what is around them goes on from the store in which the count was evaluated.  If it is
in fewer, all of them end, and the loops that are missing are a break out of the body or
of the statement around: a fault of the call, or of the statement.

A break of the body of a function is never one of the loops around its call.  Loops see no
more of a call than its value or its halt, so whatever leaves a block of a loop, or ends a
turn of it, is a statement of that block.

One thing is no fault.  At the top a break is reported with the number of loops that are
missing, and where that has too many digits to be printed the report is not one.

* `Breaks`: a block comes to a break in it.
* `Session.breaks_leave_loops`: the law.
-/

namespace SpanScript

open Machine

/-- A run of a block comes to a break in it, in these layers: its count is `n`, and `u` is
the store in which the count has been evaluated. -/
def Breaks (turns : Nat) (chain : Chain) (levels : Nat) (stmts : List Stmt) (s : Store)
    (layers : List Layer) (n : Int) (u : Store) : Prop :=
  ∃ l loc count t, Leads turns chain levels stmts s (l + 1) (.breakLoops loc count) t layers ∧
    (((machine turns l).under Weight.operand).eval chain count).run.run t = (.ok (.int n), u) ∧
    1 ≤ n

section

variable {turns levels : Nat} {chain : Chain} {stmts : List Stmt} {s t u : Store}
  {layers : List Layer} {n : Int} {stmt : Stmt}

theorem exec_breakLoops {loc : Location} {count : Expr}
    (h : (((machine turns levels).under Weight.operand).eval chain count).run.run s
      = (.ok (.int n), t)) (hn : 1 ≤ n) :
    ((machine turns (levels + 1)).exec chain (.breakLoops loc count)).run.run s
      = (.ok (.breaking n), t) := by
  rw [exec_machine, execRule, Run.run_bind, breakCount, Run.run_bind, h]
  dsimp only
  rw [integer, pure_bind, if_neg (by omega)]
  rfl

theorem count_of_exec_breakLoops {loc : Location} {count : Expr}
    (h : ((machine turns (levels + 1)).exec chain (.breakLoops loc count)).run.run s
      = (.ok (.breaking n), t)) :
    (((machine turns levels).under Weight.operand).eval chain count).run.run s
      = (.ok (.int n), t) ∧ 1 ≤ n := by
  obtain ⟨k, u, hcount, hpure⟩ := Run.run_bind_eq_ok h
  cases hpure
  obtain ⟨v, u, heval, hcount⟩ := Run.run_bind_eq_ok hcount
  obtain ⟨k, w, hint, hcheck⟩ := Run.run_bind_eq_ok hcount
  cases v with
  | int m =>
    cases hint
    by_cases hk : k ≤ 0
    · rw [if_pos hk] at hcheck
      cases hcheck
    · rw [if_neg hk] at hcheck
      cases hcheck
      exact ⟨heval, by omega⟩
  | _ => cases hint

/-! ## Breaks of a block -/

theorem Breaks.run_eq (h : Breaks turns chain levels stmts s layers n u) :
    ((machine turns levels).block chain stmts).run.run s
      = (resume layers (.breaking n)).run.run u := by
  obtain ⟨l, loc, count, t, hleads, hcount, hn⟩ := h
  rw [hleads.run_eq, Run.run_bind, exec_breakLoops hcount hn]

/-- A block comes to a break at once that it begins with. -/
theorem Breaks.first {loc : Location} {count : Expr} {after : List Stmt}
    (h : (((machine turns levels).under Weight.operand).eval chain count).run.run s
      = (.ok (.int n), u)) (hn : 1 ≤ n) :
    Breaks turns chain (levels + 1) (.breakLoops loc count :: after) s
      [.rest ((machine turns (levels + 1)).block chain after)] n u :=
  ⟨levels, loc, count, s, .first _ _ _ _, h, hn⟩

/-- A break in a block that the first statement comes to is a break in the block around. -/
theorem Breaks.inside_first {levels' : Nat} {after inside : List Stmt} {around inner : List Layer}
    (he : Enters turns chain levels stmt s levels' inside t around)
    (h : Breaks turns chain levels' inside t inner n u) :
    Breaks turns chain levels (stmt :: after) s
      (inner ++ (around ++ [.rest ((machine turns levels).block chain after)])) n u := by
  obtain ⟨l, loc, count, v, hleads, hcount, hn⟩ := h
  exact ⟨l, loc, count, v, .inside_first he hleads, hcount, hn⟩

/-- A break that is in as many loops as it counts. -/
theorem Breaks.run_le (h : Breaks turns chain levels stmts s layers n u) (hn : n ≤ loops layers) :
    ((machine turns levels).block chain stmts).run.run s
        = (resume (beyond n.toNat layers) .normal).run.run u ∧
      (loops (beyond n.toNat layers) : Int) = loops layers - n := by
  have hpos : 1 ≤ n := h.choose_spec.choose_spec.choose_spec.choose_spec.2.2
  obtain ⟨k, rfl⟩ : ∃ k : Nat, n = (k + 1 : Nat) := ⟨n.toNat - 1, by omega⟩
  obtain ⟨hresume, hloops⟩ := resume_breaking_le layers k (by omega)
  rw [h.run_eq, hresume, Int.toNat_natCast, hloops]
  exact ⟨rfl, by omega⟩

/-- A break that counts more loops than it is in. -/
theorem Breaks.run_gt (h : Breaks turns chain levels stmts s layers n u) (hn : loops layers < n) :
    ((machine turns levels).block chain stmts).run.run s
      = (.ok (.breaking (n - loops layers)), u) := by
  rw [h.run_eq, resume_breaking_gt layers n hn]
  rfl

/-- What a block halts with that comes to a statement is what the statement halts with. -/
theorem Leads.run_error {l : Nat} (h : Leads turns chain levels stmts s l stmt t layers)
    {halt : Halt} (hexec : ((machine turns l).exec chain stmt).run.run t = (.error halt, u)) :
    ((machine turns levels).block chain stmts).run.run s = (.error halt, u) := by
  rw [h.run_eq, Run.run_bind, hexec]

/-- A turn that is to end where there is no loop. -/
theorem Leads.run_continuing {l : Nat} {loc : Location}
    (h : Leads turns chain levels stmts s (l + 1) (.continueLoop loc) t layers)
    (hl : loops layers = 0) :
    ((machine turns levels).block chain stmts).run.run s = (.ok .continuing, t) := by
  have hresume : ∀ {layers : List Layer}, loops layers = 0 →
      resume layers .continuing = pure .continuing := by
    intro layers
    induction layers with
    | nil => exact fun _ => rfl
    | cons l layers ih =>
      intro hl
      cases l with
      | rest next => exact (pure_bind _ _).trans (ih hl)
      | loop next => cases hl
  rw [h.run_eq, Run.run_bind]
  exact congrArg (fun m : Run Completion => m.run.run t) (hresume hl)

/-- A block that ends by a break has come to a break in it, which counts as many loops more
as it is in. -/
theorem exists_breaks
    (h : ((machine turns levels).block chain stmts).run.run s = (.ok (.breaking n), u)) :
    1 ≤ n ∧ ∃ layers, Breaks turns chain levels stmts s layers (n + loops layers) u := by
  obtain ⟨l, stmt, t, layers, c, hleads, hexec, hleaves, hpass⟩ :=
    exists_leads (c := .breaking n) nofun h
  obtain ⟨hcontinue, hbreak, hreturn⟩ := passes_eq_some (c := .breaking n) nofun hpass
  cases c with
  | normal => cases stmt <;> cases hleaves
  | continuing => cases (hcontinue rfl).1
  | returning v => cases hreturn v rfl
  | breaking k =>
    cases stmt with
    | breakLoops loc count =>
      cases l with
      | zero => cases hexec
      | succ l =>
        obtain ⟨hcount, hk⟩ := count_of_exec_breakLoops hexec
        obtain ⟨hnk, hloops⟩ := hbreak k rfl
        have hn : n = k - loops layers := Completion.breaking.inj hnk
        have hlt := hloops hk
        obtain rfl : k = n + loops layers := by omega
        exact ⟨by omega, layers, l, loc, count, t, hleads, hcount, hk⟩
    | _ => cases hleaves

/-- A block that ends its turn has come to a statement in it that does, which is in no loop
of the block. -/
theorem exists_continuing
    (h : ((machine turns levels).block chain stmts).run.run s = (.ok .continuing, u)) :
    ∃ l loc layers, Leads turns chain levels stmts s (l + 1) (.continueLoop loc) u layers ∧
      loops layers = 0 := by
  obtain ⟨l, stmt, t, layers, c, hleads, hexec, hleaves, hpass⟩ :=
    exists_leads (c := .continuing) nofun h
  obtain ⟨hcontinue, hbreak, hreturn⟩ := passes_eq_some (c := .continuing) nofun hpass
  cases c with
  | normal => cases stmt <;> cases hleaves
  | returning v => cases hreturn v rfl
  | breaking k => cases (hbreak k rfl).1
  | continuing =>
    cases stmt with
    | continueLoop loc =>
      cases l with
      | zero => cases hexec
      | succ l =>
        cases hexec
        exact ⟨l, loc, layers, hleads, (hcontinue rfl).2⟩
    | _ => cases hleaves

/-! ## Breaks of a call and of a statement -/

theorem run_escapedBreak (n : Int) (loc : Location) (s : Store) :
    (escapedBreak n loc).run.run s
      = (.error (if printLimit ≤ n.natAbs then .printTooLong else .fault (.breakEscaped n) loc),
        s) := by
  rw [escapedBreak, integerText]
  by_cases h : printLimit ≤ n.natAbs
  · rw [if_pos h, if_pos h]
    rfl
  · rw [if_neg h, if_neg h]
    rfl

theorem Session.ofCompletion_breaking (loc : Location) (n : Int) :
    ofCompletion loc (.breaking n)
      = .error (if printLimit ≤ n.natAbs then .escaped .printTooLong
        else .fault (.breakEscaped n) loc) := by
  rw [ofCompletion, integerText]
  by_cases h : printLimit ≤ n.natAbs
  · rw [if_pos h, if_pos h]
  · rw [if_neg h, if_neg h]

theorem Machine.block_singleton (m : Machine) (stmt : Stmt) :
    m.block chain [stmt] = m.exec chain stmt := by
  have hrest : (Layer.rest (m.block chain [])).resume = pure := by
    funext c
    cases c <;> rfl
  rw [block_cons, hrest, bind_pure]

variable {loc : Location} {name : String} {f : Function} {given : Arguments}

/-- A break of the body of a call that counts more loops than it is in is a fault of the
call. -/
theorem Breaks.run_call (h : (machine turns levels).Begins s loc name f given chain t)
    (hb : Breaks turns chain (levels - Weight.body) f.body.statements t layers n u)
    (hn : loops layers < n) :
    ((machine turns levels).callDefined loc name f given).run.run s
      = (.error (if printLimit ≤ (n - loops layers).natAbs then .printTooLong
          else .fault (.breakEscaped (n - loops layers)) loc), u.called) := by
  have hblock := hb.run_gt hn
  rw [← under_machine] at hblock
  rw [h.run_ok hblock, endOfCall, run_escapedBreak]

/-- A turn that the body of a call is to end is a fault of the call. -/
theorem Leads.run_call_continuing {l : Nat} {loc' : Location}
    (h : (machine turns levels).Begins s loc name f given chain t)
    (hleads : Leads turns chain (levels - Weight.body) f.body.statements t (l + 1)
      (.continueLoop loc') u layers) (hl : loops layers = 0) :
    ((machine turns levels).callDefined loc name f given).run.run s
      = (.error (.fault .continueOutside loc), u.called) := by
  have hblock := hleads.run_continuing hl
  rw [← under_machine] at hblock
  rw [h.run_ok hblock, endOfCall]
  rfl

end

namespace Session

/-- A statement that ends as the only one of a block. -/
theorem runStatement_of_block {limits : Limits} {store u : Store} {stmt : Stmt}
    (ho : store.closed = false)
    (h : ((machine limits.turns limits.levels).block Store.globalChain [stmt]).run.run store.counted
      = (.ok .normal, u)) : runStatement limits store stmt = (.ok (), u) := by
  rw [block_singleton] at h
  rw [runStatement_opened limits ho, h]
  rfl

/-- A break of a statement that counts more loops than it is in. -/
theorem runStatement_breaks {limits : Limits} {store : Store} {stmt : Stmt} {layers : List Layer}
    {n : Int} {u : Store} (ho : store.closed = false)
    (hb : Breaks limits.turns Store.globalChain limits.levels [stmt] store.counted layers n u)
    (hn : loops layers < n) :
    runStatement limits store stmt
      = (.error (if printLimit ≤ (n - loops layers).natAbs then .escaped .printTooLong
          else .fault (.breakEscaped (n - loops layers)) stmt.location), u) := by
  have hblock := hb.run_gt hn
  rw [block_singleton] at hblock
  rw [runStatement_opened limits ho, hblock, ← ofCompletion_breaking]
  rfl

/-- **Breaks leave as many loops as they count.**

A block that comes to a break in it, through any layers of loops and choices, by a count of
`n`: if the break is in as many loops, the block goes on from the store of the count behind
the `n`-th of them, with as many loops less around it; if it is in fewer, the block ends
there by a break out of those that are missing.  In the body of a call this is a fault of
the call, and so is a turn that is to end outside of all loops of the body; at the top it
is a fault of the statement, or escapes where the number of loops that are missing cannot be
printed.  What a statement halts with, all that is around it halts with.

And a block ends by a break, or ends its turn, only by a statement of its own: nothing that
is called does it. -/
theorem breaks_leave_loops (turns : Nat) (chain : Chain) (levels : Nat) (stmts : List Stmt)
    (s u : Store) :
    let r := ((machine turns levels).block chain stmts).run.run s
    (∀ layers n, Breaks turns chain levels stmts s layers n u →
      (n ≤ loops layers → r = (resume (beyond n.toNat layers) .normal).run.run u ∧
        (loops (beyond n.toNat layers) : Int) = loops layers - n) ∧
      (loops layers < n → r = (.ok (.breaking (n - loops layers)), u))) ∧
    (∀ callLevels caller loc name f given t,
      (machine turns callLevels).Begins caller loc name f given chain t →
      let c := ((machine turns callLevels).callDefined loc name f given).run.run caller
      (∀ layers n, Breaks turns chain (callLevels - Weight.body) f.body.statements t layers n u →
        loops layers < n →
        c = (.error (if printLimit ≤ (n - loops layers).natAbs then .printTooLong
          else .fault (.breakEscaped (n - loops layers)) loc), u.called)) ∧
      ∀ l loc' layers, Leads turns chain (callLevels - Weight.body) f.body.statements t (l + 1)
        (.continueLoop loc') u layers → loops layers = 0 →
        c = (.error (.fault .continueOutside loc), u.called)) ∧
    (∀ limits store stmt layers n, store.closed = false →
      Breaks limits.turns Store.globalChain limits.levels [stmt] store.counted layers n u →
      loops layers < n →
      runStatement limits store stmt
        = (.error (if printLimit ≤ (n - loops layers).natAbs then .escaped .printTooLong
          else .fault (.breakEscaped (n - loops layers)) stmt.location), u)) ∧
    (∀ l stmt t layers h, Leads turns chain levels stmts s l stmt t layers →
      ((machine turns l).exec chain stmt).run.run t = (.error h, u) → r = (.error h, u)) ∧
    (∀ n, r = (.ok (.breaking n), u) → 1 ≤ n ∧
      ∃ layers, Breaks turns chain levels stmts s layers (n + loops layers) u) ∧
    (r = (.ok .continuing, u) → ∃ l loc layers,
      Leads turns chain levels stmts s (l + 1) (.continueLoop loc) u layers ∧
        loops layers = 0) := by
  intro r
  refine ⟨?_, ?_, ?_, ?_, fun n h => exists_breaks h, exists_continuing⟩
  · intro layers n h
    exact ⟨h.run_le, h.run_gt⟩
  · intro callLevels caller loc name f given t h
    exact ⟨fun layers n hb hn => hb.run_call h hn, fun l loc' layers hleads hl =>
      hleads.run_call_continuing h hl⟩
  · intro limits store stmt layers n ho hb hn
    exact runStatement_breaks ho hb hn
  · intro l stmt t layers h hleads hexec
    exact hleads.run_error hexec

/-- A choice in two loops, run by itself and as the body of a function: a break by two ends
both loops, a break by three is a fault of the statement and of the call, and another fault
passes through.  A turn that a body is to end outside of all loops is a fault too. -/
theorem breaks_leave_loops_nest :
    let nest (stmt : Stmt) : Stmt := .whileLoop ⟨1, 1⟩ (.literal ⟨1, 7⟩ (.int 1)) (.mk ⟨1, 9⟩
      [.forLoop ⟨1, 11⟩ "i" (.literal ⟨1, 18⟩ (.int 3)) (.mk ⟨1, 20⟩
        [.ifElse ⟨1, 22⟩ [.mk (.literal ⟨1, 25⟩ (.int 1)) (.mk ⟨1, 27⟩ [stmt])] none])])
    let leave (n : Int) : Stmt := .breakLoops ⟨1, 29⟩ (.literal ⟨1, 35⟩ (.int n))
    let f : Function := ⟨[], "INT", .mk ⟨1, 1⟩ [nest (leave 3)], Store.globalChain⟩
    let g : Function := ⟨[], "INT", .mk ⟨1, 1⟩ [.continueLoop ⟨1, 2⟩], Store.globalChain⟩
    let limits : Limits := ⟨9, 30, 9⟩
    let u := Store.initial.counted.put 0 "i" (.int 1)
    let v := (Store.initial.addScope.calling "f").put 1 "i" (.int 1)
    runStatement limits .initial (nest (leave 2)) = (.ok (), u) ∧
      runStatement limits .initial (nest (leave 3))
        = (.error (.fault (.breakEscaped 1) ⟨1, 1⟩), u) ∧
      ((machine 9 33).callDefined ⟨2, 1⟩ "f" f ⟨[], []⟩).run.run .initial
        = (.error (.fault (.breakEscaped 1) ⟨2, 1⟩), v.called) ∧
      ((machine 9 33).callDefined ⟨2, 1⟩ "g" g ⟨[], []⟩).run.run .initial
        = (.error (.fault .continueOutside ⟨2, 1⟩), Store.initial.addScope) ∧
      ((machine 9 30).block Store.globalChain [nest (.evaluate (.name ⟨1, 29⟩ "x"))]).run.run
          Store.initial.counted = (.error (.fault (.undefined "x") ⟨1, 29⟩), u) ∧
      ∃ layers, Breaks 9 Store.globalChain 30 [nest (leave 3)] Store.initial.counted layers
        (1 + loops layers) u := by
  intro nest leave f g limits u v
  have hbreaks (n : Int) (hn : 1 ≤ n) {chain : Chain} {s t : Store}
      (hassign : (Run.assign ⟨1, 11⟩ chain "i" (.int 1) (some "INT")).run.run s = (.ok (), t)) :
      ∃ layers, loops layers = 2 ∧ (resume (beyond 2 layers) .normal).run.run t = (.ok .normal, t) ∧
        Breaks 9 chain 30 [nest (leave n)] s layers n t :=
    ⟨_, rfl, rfl, .inside_first (.whileTurn (.here rfl))
      (.inside_first (.countTurn rfl hassign (.here (by decide)))
        (.inside_first (.choice (.here rfl)) (.first rfl hn)))⟩
  have hglobal : (Run.assign ⟨1, 11⟩ Store.globalChain "i" (.int 1) (some "INT")).run.run
      Store.initial.counted = (.ok (), u) :=
    Run.run_assign_ok rfl _
  have hlocal : (Run.assign ⟨1, 11⟩ [1, 0] "i" (.int 1) (some "INT")).run.run
      (Store.initial.addScope.calling "f") = (.ok (), v) := Run.run_assign_ok rfl _
  have hprint : ¬ printLimit ≤ Int.natAbs (3 - (2 : Nat)) := by decide +kernel
  refine ⟨?_, ?_, ?_, ?_, ?_, ?_⟩
  · obtain ⟨layers, hl, hresume, h⟩ := hbreaks 2 (by decide) hglobal
    obtain ⟨hblock, -⟩ := breaks_leave_loops 9 Store.globalChain 30 [nest (leave 2)]
      Store.initial.counted u
    exact runStatement_of_block rfl (((hblock _ _ h).1 (by omega)).1.trans hresume)
  · obtain ⟨layers, hl, -, h⟩ := hbreaks 3 (by decide) hglobal
    obtain ⟨-, -, hstatement, -⟩ := breaks_leave_loops 9 Store.globalChain 30 [] .initial u
    have hrun := hstatement limits .initial (nest (leave 3)) layers 3 rfl h (by omega)
    rwa [hl, if_neg hprint] at hrun
  · obtain ⟨layers, hl, -, h⟩ := hbreaks 3 (by decide) hlocal
    obtain ⟨-, hcall, -⟩ := breaks_leave_loops 9 [1, 0] 30 [] .initial v
    have hrun := (hcall 33 .initial ⟨2, 1⟩ "f" f ⟨[], []⟩ _ ⟨_, rfl, rfl⟩).1 layers 3 h (by omega)
    rwa [hl, if_neg hprint] at hrun
  · obtain ⟨-, hcall, -⟩ := breaks_leave_loops 9 [1, 0] 30 [] .initial
      (Store.initial.addScope.calling "g")
    exact (hcall 33 .initial ⟨2, 1⟩ "g" g ⟨[], []⟩ _ ⟨_, rfl, rfl⟩).2 29 ⟨1, 2⟩ _
      (.first _ _ _ _) rfl
  · obtain ⟨-, -, -, hhalt, -⟩ := breaks_leave_loops 9 Store.globalChain 30
      [nest (.evaluate (.name ⟨1, 29⟩ "x"))] Store.initial.counted u
    exact hhalt _ _ _ _ _ (.inside_first (.whileTurn (.here rfl))
      (.inside_first (.countTurn rfl hglobal (.here (by decide)))
        (.inside_first (.choice (.here rfl)) (.first _ _ _ _)))) rfl
  · obtain ⟨layers, hl, -, h⟩ := hbreaks 3 (by decide) hglobal
    obtain ⟨hblock, -, -, -, hown, -⟩ := breaks_leave_loops 9 Store.globalChain 30
      [nest (leave 3)] Store.initial.counted u
    have hrun := (hblock _ _ h).2 (by omega)
    rw [hl] at hrun
    exact (hown 1 hrun).2

/-- `WHILE(1){ BREAK(POW(10, 4301)) }` counts more loops than there are, and the number of
those that are missing has 4301 digits: it is no fault, but escapes. -/
theorem breaks_escape :
    let text : Bytes := [87, 72, 73, 76, 69, 40, 49, 41, 123, 32, 66, 82, 69, 65, 75, 40, 80, 79,
      87, 40, 49, 48, 44, 32, 52, 51, 48, 49, 41, 41, 32, 125]
    ∃ stmt stop layers n u, parse (start "t").limits (.ofBytes text) 0 = .ok (stmt, stop) ∧
      Breaks (start "t").limits.turns Store.globalChain (start "t").limits.levels [stmt]
        (start "t").store.counted layers n u ∧ loops layers < n ∧
      ((start "t").perform (.ofBytes text) 0).1 = .escaped printTooLongMessage := by
  intro text
  obtain ⟨stmt, stop, hp⟩ : ∃ stmt stop,
      parse (start "t").limits (.ofBytes text) 0 = .ok (stmt, stop) :=
    exists_parsed (by decide +kernel)
  have hesc : ((start "t").perform (.ofBytes text) 0).1 = .escaped printTooLongMessage := by
    decide +kernel
  obtain ⟨hsound, hcalls⟩ := (reachable_start "t").sound
  rcases runStatement_ends hsound hcalls stmt with ⟨⟨-, k, -, hexec⟩, -⟩ | ⟨-, hr⟩
  · rw [← block_singleton] at hexec
    obtain ⟨hk, layers, hbreaks⟩ := exists_breaks (Prod.ext hexec rfl)
    exact ⟨stmt, stop, layers, _, _, hp, hbreaks, by omega, hesc⟩
  · rw [perform_parsed hp] at hesc
    rcases hr.cases with h | ⟨_, _, h⟩ | h <;> rw [h] at hesc <;> cases hesc

end Session

end SpanScript
