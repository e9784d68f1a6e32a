import SpanScript.Proofs.Eval.Tracking

/-!
# What lies around a statement

A statement of a block runs inside layers: behind it in its block there are statements to
go on with, around the block there may be a choice, which adds nothing, or a loop, which
has turns to go on with, and around these the next block.  How a statement ends passes
through the layers from the inside out.  Each of them either goes on with what it has, or
it ends too and passes an end on.

`Leads` says that a run of a block comes to a statement, and through which layers.  It
follows the run: the statements before have ended normally, the tests have chosen the
block, and the loop has come to the beginning of this very turn.

* `resume`: what is left to do once a part has ended.
* `resume_breaking_le`, `resume_breaking_gt`: a break ends as many loops as it counts.
* `Leads.run_eq`: a block runs as the statement that it leads to does, and then what is
  left to do.
* `exists_leads`: a block that is left before its end is left by a statement of its own.
-/

namespace SpanScript

open Machine

/-! ## Layers -/

/-- What lies directly around a part of a program, with what it goes on with: a block whose
other statements come next, or a loop with turns that come next. -/
inductive Layer
  | rest (next : Run Completion)
  | loop (next : Run Completion)

namespace Layer

def next : Layer → Run Completion
  | rest next | loop next => next

/-- How a layer ends with its part: `none` to go on. -/
def ends : Layer → Completion → Option Completion
  | rest _, .normal => none
  | rest _, c => some c
  | loop _, c => c.endOfTurn

/-- What is left of a layer once its part has ended. -/
def resume (l : Layer) (c : Completion) : Run Completion :=
  match l.ends c with
  | some c => pure c
  | none => l.next

theorem resume_of_some {l : Layer} {c c' : Completion} (h : l.ends c = some c') :
    l.resume c = pure c' := by
  rw [resume, h]

theorem resume_of_none {l : Layer} {c : Completion} (h : l.ends c = none) :
    l.resume c = l.next := by
  rw [resume, h]

end Layer

/-- What is left to do in layers, the innermost first, once the part in them has ended. -/
def resume : List Layer → Completion → Run Completion
  | [], c => pure c
  | l :: layers, c => l.resume c >>= resume layers

def loops : List Layer → Nat
  | [] => 0
  | .rest _ :: layers => loops layers
  | .loop _ :: layers => loops layers + 1

/-- The layers around a number of loops. -/
def beyond : Nat → List Layer → List Layer
  | 0, layers => layers
  | _ + 1, [] => []
  | n + 1, .rest _ :: layers => beyond (n + 1) layers
  | n + 1, .loop _ :: layers => beyond n layers

/-- How layers end with the part in them, if no layer goes on. -/
def passes : List Layer → Completion → Option Completion
  | [], c => some c
  | l :: layers, c => (l.ends c).bind (passes layers)

theorem resume_append (inner outer : List Layer) :
    ∀ c, resume (inner ++ outer) c = resume inner c >>= resume outer := by
  induction inner with
  | nil => intro c; exact (pure_bind c _).symm
  | cons l inner ih =>
    intro c
    show l.resume c >>= resume (inner ++ outer) = (l.resume c >>= resume inner) >>= resume outer
    rw [bind_assoc]
    exact congrArg _ (funext ih)

theorem passes_append (inner outer : List Layer) :
    ∀ c, passes (inner ++ outer) c = (passes inner c).bind (passes outer) := by
  induction inner with
  | nil => exact fun _ => rfl
  | cons l inner ih =>
    intro c
    rw [List.cons_append, passes, passes, Option.bind_assoc]
    exact congrArg _ (funext ih)

/-! ### Breaks -/

theorem resume_rest_breaking (next : Run Completion) (layers : List Layer) (n : Int) :
    resume (.rest next :: layers) (.breaking n) = resume layers (.breaking n) := pure_bind _ _

theorem resume_loop_breaking (next : Run Completion) (layers : List Layer) {n : Int} (hn : 1 < n) :
    resume (.loop next :: layers) (.breaking n) = resume layers (.breaking (n - 1)) := by
  have hends : (Layer.loop next).ends (.breaking n) = some (.breaking (n - 1)) :=
    congrArg some (if_pos hn)
  rw [resume, Layer.resume_of_some hends]
  exact pure_bind _ _

/-- **A break that finds its loops** ends as many as it counts, the innermost ones, and what
is around them goes on. -/
theorem resume_breaking_le : ∀ (layers : List Layer) (n : Nat), n + 1 ≤ loops layers →
    resume layers (.breaking (n + 1 : Nat)) = resume (beyond (n + 1) layers) .normal ∧
      loops (beyond (n + 1) layers) = loops layers - (n + 1) := by
  intro layers
  induction layers with
  | nil => exact fun n h => absurd h (Nat.not_succ_le_zero n)
  | cons l layers ih =>
    intro n h
    cases l with
    | rest next =>
      rw [resume_rest_breaking]
      exact ih n h
    | loop next =>
      cases n with
      | zero =>
        rw [beyond, beyond, loops, Nat.add_sub_cancel]
        exact ⟨pure_bind _ _, rfl⟩
      | succ n =>
        obtain ⟨hresume, hloops⟩ := ih n (Nat.le_of_succ_le_succ h)
        refine ⟨?_, by rw [beyond, hloops, loops]; omega⟩
        rw [resume_loop_breaking next layers (by omega), beyond, ← hresume]
        congr 2
        omega

/-- **A break that counts more loops than there are** ends them all, and is a break out of
as many loops as are missing. -/
theorem resume_breaking_gt : ∀ (layers : List Layer) (n : Int), loops layers < n →
    resume layers (.breaking n) = pure (.breaking (n - loops layers)) := by
  intro layers
  induction layers with
  | nil => intro n _; rw [resume, loops, Int.natCast_zero, Int.sub_zero]
  | cons l layers ih =>
    intro n h
    cases l with
    | rest next =>
      rw [resume_rest_breaking]
      exact ih n h
    | loop next =>
      rw [loops] at h ⊢
      rw [resume_loop_breaking next layers (by omega), ih (n - 1) (by omega)]
      congr 2
      omega

/-! ## Turns of loops -/

namespace Run

/-- A loop comes to the beginning of a turn: `WhileTurn test turn k s left t` if it is run
from `s` with `k` turns left, and comes to a turn that begins in `t`, behind which `left`
are left. -/
inductive WhileTurn (test : Run Bool) (turn : Run Completion) :
    Nat → Store → Nat → Store → Prop
  | here {k : Nat} {s t : Store} : test.run.run s = (.ok true, t) →
    WhileTurn test turn (k + 1) s k t
  | later {k left : Nat} {s t u v : Store} {c : Completion} : test.run.run s = (.ok true, t) →
    turn.run.run t = (.ok c, u) → c.endOfTurn = none → WhileTurn test turn k u left v →
    WhileTurn test turn (k + 1) s left v

/-- The counter of the next turn, which is put unless it is past the limit. -/
def advance (limit : Int) (read : Run Int) (write : Int → Run Unit) : Run Int := do
  let current ← read
  if current + 1 ≤ limit then write (current + 1)
  pure (current + 1)

/-- A loop that counts comes to the beginning of a turn, as `WhileTurn`. -/
inductive CountTurn (limit : Int) (turn : Run Completion) (read : Run Int)
    (write : Int → Run Unit) : Nat → Int → Store → Nat → Store → Prop
  | here {k : Nat} {counter : Int} {s : Store} : counter ≤ limit →
    CountTurn limit turn read write (k + 1) counter s k s
  | later {k left : Nat} {counter next : Int} {s t u v : Store} {c : Completion} :
    counter ≤ limit → turn.run.run s = (.ok c, t) → c.endOfTurn = none →
    (advance limit read write).run.run t = (.ok next, u) →
    CountTurn limit turn read write k next u left v →
    CountTurn limit turn read write (k + 1) counter s left v

section

variable {test : Run Bool} {turn : Run Completion} {limit : Int} {read : Run Int}
  {write : Int → Run Unit}

theorem whileLoop_succ (k : Nat) :
    whileLoop test turn (k + 1) = test >>= fun b =>
      if b then turn >>= (Layer.loop (whileLoop test turn k)).resume else pure .normal := by
  rw [whileLoop]
  congr 1
  funext b
  cases b with
  | false => rfl
  | true =>
    rw [if_pos rfl, if_pos rfl]
    refine congrArg (turn >>= ·) (funext fun c => ?_)
    cases hc : c.endOfTurn with
    | some c' => rw [Layer.resume_of_some (l := .loop _) hc]
    | none => rw [Layer.resume_of_none (l := .loop _) hc]; rfl

theorem countLoop_succ (k : Nat) (counter : Int) :
    countLoop limit turn read write (k + 1) counter =
      if limit < counter then pure .normal
      else turn >>=
        (Layer.loop (advance limit read write >>= countLoop limit turn read write k)).resume := by
  rw [countLoop]
  congr 1
  refine congrArg (turn >>= ·) (funext fun c => ?_)
  cases hc : c.endOfTurn with
  | some c' => rw [Layer.resume_of_some (l := .loop _) hc]
  | none =>
    rw [Layer.resume_of_none (l := .loop _) hc]
    simp only [Layer.next, advance, bind_assoc]
    refine congrArg (read >>= ·) (funext fun n => ?_)
    split <;> simp only [bind_assoc, pure_bind]

end

end Run

/-! ## Where a run comes to -/

namespace Machine

/-- The test before a turn of a loop. -/
def holds (m : Machine) (chain : Chain) (test : Expr) : Run Bool :=
  (m.under Weight.test).test chain test

def turn (m : Machine) (chain : Chain) (body : Block) : Run Completion :=
  (m.under Weight.turn).block chain body.statements

def writeCounter (chain : Chain) (loc : Location) (counter : String) (k : Int) : Run Unit :=
  Run.assign loc chain counter (.int k) none

/-- What a loop that counts goes on with behind a turn. -/
def countOn (m : Machine) (chain : Chain) (loc : Location) (counter : String) (n : Int)
    (body : Block) (left : Nat) : Run Completion :=
  Run.advance n (readCounter chain loc counter) (writeCounter chain loc counter) >>=
    Run.countLoop n (m.turn chain body) (readCounter chain loc counter)
      (writeCounter chain loc counter) left

end Machine

/-- A choice takes a block: `Takes m chain otherwise branches s stmts t` if its tests, run
from `s`, choose the block of these statements and leave `t`. -/
inductive Takes (m : Machine) (chain : Chain) (otherwise : Option Block) :
    List Branch → Store → List Stmt → Store → Prop
  | here {b : Branch} {rest : List Branch} {s t : Store} :
    (m.holds chain b.test).run.run s = (.ok true, t) →
    Takes m chain otherwise (b :: rest) s b.block.statements t
  | later {b : Branch} {rest : List Branch} {s t u : Store} {stmts : List Stmt} :
    (m.holds chain b.test).run.run s = (.ok false, t) →
    Takes m chain otherwise rest t stmts u → Takes m chain otherwise (b :: rest) s stmts u
  | otherwise {b : Block} {s : Store} : otherwise = some b →
    Takes m chain otherwise [] s b.statements s

section

variable (turns : Nat) (chain : Chain)

/-- A choice or a loop comes to a block of its own: with so many levels from `s` it comes
to these statements, with so many levels in `t`, and the block is in these layers. -/
inductive Enters : Nat → Stmt → Store → Nat → List Stmt → Store → List Layer → Prop
  | choice {levels : Nat} {loc : Location} {branches : List Branch} {otherwise : Option Block}
      {stmts : List Stmt} {s t : Store} :
    Takes (machine turns levels) chain otherwise branches s stmts t →
    Enters (levels + 1) (.ifElse loc branches otherwise) s (levels - Weight.branch) stmts t []
  | whileTurn {levels left : Nat} {loc : Location} {test : Expr} {body : Block} {s t : Store} :
    Run.WhileTurn ((machine turns levels).holds chain test) ((machine turns levels).turn chain body)
      turns s left t →
    Enters (levels + 1) (.whileLoop loc test body) s (levels - Weight.turn) body.statements t
      [.loop (Run.whileLoop ((machine turns levels).holds chain test)
        ((machine turns levels).turn chain body) left)]
  | countTurn {levels left : Nat} {loc : Location} {counter : String} {limit : Expr} {n : Int}
      {body : Block} {s t u v : Store} :
    (((machine turns levels).under Weight.operand).eval chain limit).run.run s = (.ok (.int n), t) →
    (Run.assign loc chain counter (.int 1) (some Kind.int.name)).run.run t = (.ok (), u) →
    Run.CountTurn n ((machine turns levels).turn chain body) (readCounter chain loc counter)
      (writeCounter chain loc counter) turns 1 u left v →
    Enters (levels + 1) (.forLoop loc counter limit body) s (levels - Weight.turn) body.statements v
      [.loop ((machine turns levels).countOn chain loc counter n body left)]

/-- A block comes to a statement in it, at any depth: with so many levels from `s` it comes
to this statement, with so many levels in `t`, and the statement is in these layers. -/
inductive Leads : Nat → List Stmt → Store → Nat → Stmt → Store → List Layer → Prop
  | here {levels : Nat} {before after : List Stmt} {stmt : Stmt} {s t : Store} :
    ((machine turns levels).block chain before).run.run s = (.ok .normal, t) →
    Leads levels (before ++ stmt :: after) s levels stmt t
      [.rest ((machine turns levels).block chain after)]
  | inside {levels levels' levels'' : Nat} {before after stmts : List Stmt} {stmt stmt' : Stmt}
      {s t u v : Store} {around inner : List Layer} :
    ((machine turns levels).block chain before).run.run s = (.ok .normal, t) →
    Enters turns chain levels stmt t levels' stmts u around →
    Leads levels' stmts u levels'' stmt' v inner →
    Leads levels (before ++ stmt :: after) s levels'' stmt' v
      (inner ++ (around ++ [.rest ((machine turns levels).block chain after)]))

end

variable {turns : Nat} {chain : Chain}

theorem Machine.run_block_nil (m : Machine) (s : Store) :
    (m.block chain []).run.run s = (.ok .normal, s) := by
  rw [block]
  rfl

/-- A block comes to its first statement at once. -/
theorem Leads.first (levels : Nat) (stmt : Stmt) (after : List Stmt) (s : Store) :
    Leads turns chain levels (stmt :: after) s levels stmt s
      [.rest ((machine turns levels).block chain after)] :=
  .here (run_block_nil _ s)

theorem Leads.inside_first {levels levels' levels'' : Nat} {after stmts : List Stmt}
    {stmt stmt' : Stmt} {s t u : Store} {around inner : List Layer}
    (h : Enters turns chain levels stmt s levels' stmts t around)
    (h' : Leads turns chain levels' stmts t levels'' stmt' u inner) :
    Leads turns chain levels (stmt :: after) s levels'' stmt' u
      (inner ++ (around ++ [.rest ((machine turns levels).block chain after)])) :=
  .inside (run_block_nil _ s) h h'

theorem Machine.block_cons (m : Machine) (stmt : Stmt) (rest : List Stmt) :
    m.block chain (stmt :: rest) =
      m.exec chain stmt >>= (Layer.rest (m.block chain rest)).resume := by
  rw [block]
  refine congrArg (m.exec chain stmt >>= ·) (funext fun c => ?_)
  cases c <;> rfl

/-- A block whose first statements end normally goes on with the others. -/
theorem Machine.run_block_append (m : Machine) {before : List Stmt} (after : List Stmt) :
    ∀ {s t : Store}, (m.block chain before).run.run s = (.ok .normal, t) →
      (m.block chain (before ++ after)).run.run s = (m.block chain after).run.run t := by
  induction before with
  | nil =>
    intro s t h
    cases h
    rfl
  | cons stmt before ih =>
    intro s t h
    rw [List.cons_append, block_cons, Run.run_bind]
    rw [block_cons, Run.run_bind] at h
    generalize (m.exec chain stmt).run.run s = x at h ⊢
    obtain ⟨_ | c, u⟩ := x
    · cases h
    · cases c with
      | normal => exact ih h
      | _ => cases h

theorem Machine.firstHolding_cons (m : Machine) (otherwise : Option Block) (b : Branch)
    (rest : List Branch) :
    m.firstHolding chain otherwise (b :: rest) = m.holds chain b.test >>= fun c =>
      if c then (m.under Weight.branch).block chain b.block.statements
      else m.firstHolding chain otherwise rest := rfl

theorem Takes.run_eq {m : Machine} {otherwise : Option Block} {branches : List Branch}
    {s t : Store} {stmts : List Stmt} (h : Takes m chain otherwise branches s stmts t) :
    (m.firstHolding chain otherwise branches).run.run s
      = ((m.under Weight.branch).block chain stmts).run.run t := by
  induction h with
  | here htest => rw [firstHolding_cons, Run.run_bind, htest]; rfl
  | later htest _ ih => rw [firstHolding_cons, Run.run_bind, htest]; exact ih
  | otherwise hb => subst hb; rfl

theorem Run.WhileTurn.run_eq {test : Run Bool} {turn : Run Completion} {k left : Nat}
    {s t : Store} (h : WhileTurn test turn k s left t) :
    (whileLoop test turn k).run.run s
      = (turn >>= (Layer.loop (whileLoop test turn left)).resume).run.run t := by
  induction h with
  | here htest => rw [whileLoop_succ, run_bind, htest]; rfl
  | later htest hturn hc _ ih =>
    rw [whileLoop_succ, run_bind, htest]
    dsimp only
    rw [if_pos rfl, run_bind, hturn]
    dsimp only
    rw [Layer.resume_of_none (l := .loop _) hc]
    exact ih

theorem Run.CountTurn.run_eq {limit : Int} {turn : Run Completion} {read : Run Int}
    {write : Int → Run Unit} {k left : Nat} {counter : Int} {s t : Store}
    (h : CountTurn limit turn read write k counter s left t) :
    (countLoop limit turn read write k counter).run.run s
      = (turn >>= (Layer.loop (advance limit read write >>=
          countLoop limit turn read write left)).resume).run.run t := by
  induction h with
  | here hle => rw [countLoop_succ, if_neg (Int.not_lt.mpr hle)]
  | later hle hturn hc hnext _ ih =>
    rw [countLoop_succ, if_neg (Int.not_lt.mpr hle), run_bind, hturn]
    dsimp only
    rw [Layer.resume_of_none (l := .loop _) hc, Layer.next, run_bind, hnext]
    exact ih

theorem turn_machine (turns levels : Nat) (body : Block) :
    (machine turns levels).turn chain body
      = (machine turns (levels - Weight.turn)).block chain body.statements := by
  rw [turn, under_machine]

theorem resume_one (l : Layer) : resume [l] = l.resume := funext fun _ => bind_pure _

theorem Enters.run_eq {levels levels' : Nat} {stmt : Stmt} {s t : Store} {stmts : List Stmt}
    {layers : List Layer} (h : Enters turns chain levels stmt s levels' stmts t layers) :
    ((machine turns levels).exec chain stmt).run.run s
      = ((machine turns levels').block chain stmts >>= resume layers).run.run t := by
  cases h with
  | choice htakes =>
    rw [exec_machine, execRule, htakes.run_eq, under_machine]
    exact congrArg (fun m : Run Completion => m.run.run t) (bind_pure _).symm
  | whileTurn hturn =>
    rw [← turn_machine, resume_one]
    exact hturn.run_eq
  | @countTurn _ _ _ _ _ _ _ _ t u _ hlimit hassign hturn =>
    rw [← turn_machine, resume_one, exec_machine, execRule, count, Run.run_bind, hlimit]
    show (Run.assign _ chain _ (.int 1) _ >>= _ : Run Completion).run.run t = _
    rw [Run.run_bind, hassign]
    exact hturn.run_eq

/-- **A block runs as the statement that it comes to does**, with what is left to do in the
layers behind it. -/
theorem Leads.run_eq {levels levels' : Nat} {stmts : List Stmt} {s t : Store} {stmt : Stmt}
    {layers : List Layer} (h : Leads turns chain levels stmts s levels' stmt t layers) :
    ((machine turns levels).block chain stmts).run.run s
      = ((machine turns levels').exec chain stmt >>= resume layers).run.run t := by
  induction h with
  | here hbefore => rw [run_block_append _ _ hbefore, block_cons, resume_one]
  | @inside _ _ _ _ after _ _ _ _ _ _ _ around inner hbefore henters _ ih =>
    rw [run_block_append _ _ hbefore, block_cons, Run.run_bind_congr henters.run_eq, bind_assoc,
      Run.run_bind_congr ih, bind_assoc]
    congr 3
    funext c
    rw [resume_append, ← resume_one]
    congr 1
    funext c
    rw [resume_append]

/-! ## Where a block is left -/

/-- A statement ends in its own way: with a value to return, with loops to leave, or with a
turn to end. -/
def Stmt.Leaves : Stmt → Completion → Prop
  | .returnValue _ _, .returning _ => True
  | .breakLoops _ _, .breaking _ => True
  | .continueLoop _, .continuing => True
  | _, _ => False

theorem passes_rest {next : Run Completion} {c : Completion} (hc : c ≠ .normal) :
    passes [.rest next] c = some c := by
  cases c with
  | normal => exact absurd rfl hc
  | _ => rfl

theorem passes_loop (next : Run Completion) (c : Completion) :
    passes [.loop next] c = c.endOfTurn := by
  show c.endOfTurn.bind some = c.endOfTurn
  cases c.endOfTurn <;> rfl

/-- A layer goes on once its part has ended normally. -/
theorem passes_normal {layers : List Layer} {c : Completion} (h : passes layers .normal = some c) :
    c = .normal := by
  cases layers with
  | nil => exact (Option.some.inj h).symm
  | cons l layers => cases l <;> cases h

/-- What passes through layers passes as it is, but for a break, which counts less at each
loop; and no loop passes on that a turn is to end. -/
theorem passes_eq_some {layers : List Layer} {c : Completion} (hc : c ≠ .normal) :
    ∀ {c' : Completion}, passes layers c' = some c →
      (c' = .continuing → c = .continuing ∧ loops layers = 0) ∧
      (∀ n, c' = .breaking n → c = .breaking (n - loops layers) ∧ (1 ≤ n → loops layers < n)) ∧
      ∀ v, c' = .returning v → c = .returning v := by
  induction layers with
  | nil =>
    rintro c' h
    obtain rfl := Option.some.inj h
    refine ⟨fun h => ⟨h, rfl⟩, fun n h => ?_, fun v h => h⟩
    rw [h, loops, Int.natCast_zero, Int.sub_zero]
    exact ⟨rfl, fun hn => by omega⟩
  | cons l layers ih =>
    intro c' h
    have h : (l.ends c').bind (passes layers) = some c := h
    obtain ⟨c₁, hends, hpass⟩ := Option.bind_eq_some_iff.mp h
    obtain ⟨hcontinue, hbreak, hreturn⟩ := ih hpass
    cases l with
    | rest next =>
      cases c' with
      | normal => cases hends
      | _ =>
        obtain rfl := Option.some.inj hends
        exact ⟨hcontinue, hbreak, hreturn⟩
    | loop next =>
      refine ⟨?_, ?_, ?_⟩
      · rintro rfl
        cases hends
      · rintro n rfl
        have hends := Option.some.inj hends
        split at hends
        · obtain ⟨hc, hloops⟩ := hbreak _ hends.symm
          rw [hc, loops]
          refine ⟨?_, fun _ => by omega⟩
          congr 1
          omega
        · rw [← hends] at hpass
          exact absurd (passes_normal hpass) hc
      · rintro v rfl
        exact hreturn v (Option.some.inj hends).symm

/-- A block that does not end normally is left by one of its statements. -/
theorem Machine.exists_of_block (m : Machine) {c : Completion} (hc : c ≠ .normal) :
    ∀ {stmts : List Stmt} {s t : Store}, (m.block chain stmts).run.run s = (.ok c, t) →
      ∃ before stmt after u, stmts = before ++ stmt :: after ∧
        (m.block chain before).run.run s = (.ok .normal, u) ∧
        (m.exec chain stmt).run.run u = (.ok c, t) := by
  intro stmts
  induction stmts with
  | nil =>
    intro s t h
    cases h
    exact absurd rfl hc
  | cons stmt rest ih =>
    intro s t h
    rw [block_cons] at h
    obtain ⟨c₁, u, hexec, hrest⟩ := Run.run_bind_eq_ok h
    cases c₁ with
    | normal =>
      obtain ⟨before, stmt', after, v, rfl, hbefore, hexec'⟩ := ih hrest
      refine ⟨stmt :: before, stmt', after, v, rfl, ?_, hexec'⟩
      rw [block_cons, Run.run_bind, hexec]
      exact hbefore
    | _ =>
      cases hrest
      exact ⟨[], stmt, rest, s, rfl, rfl, hexec⟩

/-- A choice that does not end normally has taken a block. -/
theorem Machine.exists_takes (m : Machine) {otherwise : Option Block} {c : Completion}
    (hc : c ≠ .normal) : ∀ {branches : List Branch} {s t : Store},
      (m.firstHolding chain otherwise branches).run.run s = (.ok c, t) →
      ∃ stmts u, Takes m chain otherwise branches s stmts u ∧
        ((m.under Weight.branch).block chain stmts).run.run u = (.ok c, t) := by
  intro branches
  induction branches with
  | nil =>
    intro s t h
    cases otherwise with
    | none =>
      cases h
      exact absurd rfl hc
    | some b => exact ⟨b.statements, s, .otherwise rfl, h⟩
  | cons b rest ih =>
    intro s t h
    rw [firstHolding_cons] at h
    obtain ⟨holds, u, htest, hrest⟩ := Run.run_bind_eq_ok h
    cases holds with
    | true => exact ⟨b.block.statements, u, .here htest, hrest⟩
    | false =>
      obtain ⟨stmts, v, htakes, hblock⟩ := ih hrest
      exact ⟨stmts, v, .later htest htakes, hblock⟩

namespace Run

variable {test : Run Bool} {turn : Run Completion} {limit : Int} {read : Run Int}
  {write : Int → Run Unit} {c : Completion}

/-- What a loop comes to behind a turn: it has been left, or it goes on. -/
theorem run_resume_loop {next : Run Completion} {c₁ : Completion} {s t : Store}
    (h : ((Layer.loop next).resume c₁).run.run s = (.ok c, t)) :
    (c₁.endOfTurn = some c ∧ s = t) ∨ (c₁.endOfTurn = none ∧ next.run.run s = (.ok c, t)) := by
  cases hend : c₁.endOfTurn with
  | some c₂ =>
    rw [Layer.resume_of_some (l := .loop next) hend] at h
    cases h
    exact .inl ⟨rfl, rfl⟩
  | none =>
    rw [Layer.resume_of_none (l := .loop next) hend] at h
    exact .inr ⟨rfl, h⟩

/-- A loop that does not end normally is left in a turn. -/
theorem exists_whileTurn (hc : c ≠ .normal) : ∀ {k : Nat} {s t : Store},
    (whileLoop test turn k).run.run s = (.ok c, t) →
    ∃ left u c₁, WhileTurn test turn k s left u ∧ turn.run.run u = (.ok c₁, t) ∧
      c₁.endOfTurn = some c := by
  intro k
  induction k with
  | zero => exact nofun
  | succ k ih =>
    intro s t h
    rw [whileLoop_succ] at h
    obtain ⟨holds, u, htest, hrest⟩ := run_bind_eq_ok h
    cases holds with
    | false =>
      cases hrest
      exact absurd rfl hc
    | true =>
      obtain ⟨c₁, v, hturn, hnext⟩ := run_bind_eq_ok hrest
      obtain ⟨hend, rfl⟩ | ⟨hend, hgo⟩ := run_resume_loop hnext
      · exact ⟨k, u, c₁, .here htest, hturn, hend⟩
      · obtain ⟨left, w, c₂, hlater, hw⟩ := ih hgo
        exact ⟨left, w, c₂, .later htest hturn hend hlater, hw⟩

/-- A loop that counts and does not end normally is left in a turn. -/
theorem exists_countTurn (hc : c ≠ .normal) : ∀ {k : Nat} {counter : Int} {s t : Store},
    (countLoop limit turn read write k counter).run.run s = (.ok c, t) →
    ∃ left u c₁, CountTurn limit turn read write k counter s left u ∧
      turn.run.run u = (.ok c₁, t) ∧ c₁.endOfTurn = some c := by
  intro k
  induction k with
  | zero => exact nofun
  | succ k ih =>
    intro counter s t h
    rw [countLoop_succ] at h
    by_cases hlimit : limit < counter
    · rw [if_pos hlimit] at h
      cases h
      exact absurd rfl hc
    · rw [if_neg hlimit] at h
      have hle : counter ≤ limit := Int.not_lt.mp hlimit
      obtain ⟨c₁, u, hturn, hnext⟩ := run_bind_eq_ok h
      obtain ⟨hend, rfl⟩ | ⟨hend, hgo⟩ := run_resume_loop hnext
      · exact ⟨k, s, c₁, .here hle, hturn, hend⟩
      · obtain ⟨next, v, hadvance, hrest⟩ := run_bind_eq_ok hgo
        obtain ⟨left, w, c₂, hlater, hw⟩ := ih hrest
        exact ⟨left, w, c₂, .later hle hturn hend hadvance hlater, hw⟩

end Run

theorem ne_normal_of_endOfTurn {c c' : Completion} (h : c.endOfTurn = some c') : c ≠ .normal := by
  rintro rfl
  cases h

/-- A statement that does not end normally ends in its own way, or it is a choice or a loop
and a block of its own has been left. -/
theorem exists_enters {levels : Nat} {stmt : Stmt} {s t : Store} {c : Completion}
    (hc : c ≠ .normal) (h : ((machine turns levels).exec chain stmt).run.run s = (.ok c, t)) :
    stmt.Leaves c ∨ ∃ levels' stmts u layers c₁, levels' < levels ∧
      Enters turns chain levels stmt s levels' stmts u layers ∧
      ((machine turns levels').block chain stmts).run.run u = (.ok c₁, t) ∧ c₁ ≠ .normal ∧
      passes layers c₁ = some c := by
  cases levels with
  | zero => cases h
  | succ levels =>
    rw [exec_machine] at h
    have hnormal {α : Type} {m : Run α} :
        (m >>= fun _ => pure .normal : Run Completion).run.run s ≠ (.ok c, t) := by
      intro h
      obtain ⟨_, _, _, hpure⟩ := Run.run_bind_eq_ok h
      cases hpure
      exact hc rfl
    cases stmt with
    | assign loc x value declared => exact absurd h hnormal
    | assignCell loc target value => exact absurd h hnormal
    | evaluate value => exact absurd h hnormal
    | define loc name params returns body => exact absurd h hnormal
    | ifElse loc branches otherwise =>
      obtain ⟨stmts, u, htakes, hblock⟩ := exists_takes _ hc h
      rw [under_machine] at hblock
      exact .inr ⟨_, stmts, u, [], c, by omega, .choice htakes, hblock, hc, rfl⟩
    | whileLoop loc test body =>
      obtain ⟨left, u, c₁, hturn, hblock, hend⟩ := Run.exists_whileTurn hc h
      rw [← turn, turn_machine] at hblock
      exact .inr ⟨_, _, u, _, c₁, by omega, .whileTurn hturn, hblock, ne_normal_of_endOfTurn hend,
        (passes_loop ..).trans hend⟩
    | forLoop loc counter limit body =>
      obtain ⟨v, t₁, hlimit, h⟩ := Run.run_bind_eq_ok h
      obtain ⟨n, t₂, hint, h⟩ := Run.run_bind_eq_ok h
      obtain ⟨_, t₃, hassign, h⟩ := Run.run_bind_eq_ok h
      obtain ⟨left, u, c₁, hturn, hblock, hend⟩ := Run.exists_countTurn hc h
      cases v with
      | int n =>
        cases hint
        rw [← turn, turn_machine] at hblock
        exact .inr ⟨_, _, u, _, c₁, by omega, .countTurn hlimit hassign hturn, hblock,
          ne_normal_of_endOfTurn hend, (passes_loop ..).trans hend⟩
      | _ => cases hint
    | returnValue loc value =>
      obtain ⟨_, _, _, hpure⟩ := Run.run_bind_eq_ok h
      cases hpure
      exact .inl trivial
    | breakLoops loc count =>
      obtain ⟨_, _, _, hpure⟩ := Run.run_bind_eq_ok h
      cases hpure
      exact .inl trivial
    | continueLoop loc =>
      cases h
      exact .inl trivial

/-- **A block that is left before its end** is left by a statement of its own, which ends in
its own way and leaves the store that the block leaves; its end passes through the layers. -/
theorem exists_leads : ∀ {levels : Nat} {stmts : List Stmt} {s t : Store} {c : Completion},
    c ≠ .normal → ((machine turns levels).block chain stmts).run.run s = (.ok c, t) →
    ∃ levels' stmt u layers c', Leads turns chain levels stmts s levels' stmt u layers ∧
      ((machine turns levels').exec chain stmt).run.run u = (.ok c', t) ∧ stmt.Leaves c' ∧
      passes layers c' = some c := by
  intro levels
  induction levels using Nat.strongRecOn with
  | ind levels ih =>
    intro stmts s t c hc h
    obtain ⟨before, stmt, after, u, rfl, hbefore, hexec⟩ := exists_of_block _ hc h
    obtain hleaves | ⟨levels', inner, v, around, c₁, hlt, henters, hblock, hc₁, hpass⟩ :=
      exists_enters hc hexec
    · exact ⟨levels, stmt, u, _, c, .here hbefore, hexec, hleaves, passes_rest hc⟩
    · obtain ⟨l, stmt', w, layers, c', hleads, hexec', hleaves, hpass'⟩ := ih levels' hlt hc₁ hblock
      refine ⟨l, stmt', w, _, c', .inside hbefore henters hleads, hexec', hleaves, ?_⟩
      rw [passes_append, hpass', Option.bind_some, passes_append, hpass, Option.bind_some]
      exact passes_rest hc

end SpanScript
