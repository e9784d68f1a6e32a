import SpanScript.Proofs.Eval.Tracking
import SpanScript.Proofs.Session.Contained

/-!
# Frames of calls

The names of the running calls stand in the store, and a return looks there for its
function.  The framed machine knows which calls are running from how the program nests:
the body of a function runs in a frame with one more name, and everything else runs in the
frame around it.  In a frame a return gives a value to the call that the innermost name
stands for, and outside of all frames it is a fault; no look at the store decides.

A framed machine checks before and after each expression, each statement, each call and
each body that the store has the names of the frame, and a function for each of them, and
halts in a given way where it has not, or where a return does not find its function.  It
runs every statement as the machine without frames does, whatever it would halt with.

The functions of running calls are still there because a definition only adds names, so
the invariant is on more names than the frame has: those of the calls that are about to
begin are known before their frame is there.

* `Store.Knows`, `Store.InFrame`: the invariant, and what a frame asks for.
* `Machine.returnedFrom`, `framedMachine`: returns and machines in frames.
* `machine_tracks_framed`: a machine runs as it does in its frame.
* `calls_balanced`: so does every statement of a session, and no call is left running.
-/

namespace SpanScript

namespace Store

/-- The running calls, and names that functions of the table have. -/
structure Knows (names running : List String) (s : Store) : Prop where
  calls : s.calls = running
  functions : ∀ name ∈ names, (s.function? name).isSome

/-- The running calls are those of a frame, and each of them has a function. -/
def InFrame (running : List String) (s : Store) : Prop :=
  s.calls = running ∧ ∀ name ∈ running, (s.function? name).isSome

instance (running : List String) : DecidablePred (InFrame running) := fun s =>
  inferInstanceAs (Decidable (s.calls = running ∧ ∀ name ∈ running, (s.function? name).isSome))

variable {names running : List String} {s : Store}

theorem Knows.inFrame (h : s.Knows names running) (hr : running ⊆ names) : s.InFrame running :=
  ⟨h.calls, fun name hname => h.functions name (hr hname)⟩

theorem invariant_knows (names running : List String) :
    Invariant (Knows names running) (· ≠ []) where
  nonempty h := h
  enter _ _ := List.cons_ne_nil _ _
  put h _ _ _ _ := ⟨h.calls, h.functions⟩
  remove h _ _ _ := ⟨h.calls, h.functions⟩
  addScope h := ⟨h.calls, h.functions⟩
  addTensor h _ := ⟨h.calls, h.functions⟩
  setCell h _ _ _ := ⟨h.calls, h.functions⟩
  define h _ _ _ _ _ :=
    ⟨h.calls, fun name hname => isSome_function?_define (h.functions name hname)⟩
  print h _ := ⟨h.calls, h.functions⟩

/-- The frame of a call of a known function. -/
theorem Knows.push {name : String} (h : s.Knows (name :: names) running) :
    { s with calls := name :: s.calls }.Knows (name :: names) (name :: running) :=
  ⟨congrArg (name :: ·) h.calls, h.functions⟩

theorem Knows.pop {name : String} (h : s.Knows names (name :: running)) :
    { s with calls := s.calls.drop 1 }.Knows names running :=
  ⟨congrArg (List.drop 1) h.calls, h.functions⟩

end Store

open Run Machine

section

variable (h : Halt)

def Run.inFrame {α : Type} (running : List String) (m : Run α) : Run α :=
  Run.guarded (fun s t => s.InFrame running ∧ t.InFrame running) h m

/-- The value to return in a frame; without an expression it is the zero of the function
that now has the innermost name, and there is one. -/
def Machine.returnedFrom (m : Machine) (running : List String) (chain : Chain) (loc : Location)
    (value : Option Expr) : Run Value :=
  match running with
  | [] => Run.fail .returnOutside loc
  | name :: _ =>
    match value with
    | some e => (m.under Weight.operand).eval chain e
    | none => do
      let s ← get
      match s.function? name with
      | some f => zeroOf loc name f
      | none => throw h

/-- The machine of a number of levels in a frame.  A call runs the body of its function in
a frame of its own, and takes the value that is returned there. -/
def framedMachine (turns : Nat) : Nat → List String → Machine
  | 0, _ => .bottom
  | levels + 1, running =>
    { levels
      evalUnder := fun extra chain e =>
        match extra with
        | 0 => Run.inFrame h running ((framedMachine turns levels running).evalBy
            (fun loc name f given => Run.inFrame h running
              ((framedMachine turns levels running).callDefinedBy
                (fun chain stmts => Run.inFrame h (name :: running)
                  (((framedMachine turns levels (name :: running)).under Weight.body).block chain
                    stmts))
                loc name f given))
            chain e)
        | extra + 1 => (framedMachine turns levels running).evalUnder extra chain e
      execUnder := fun extra chain s =>
        match extra with
        | 0 => Run.inFrame h running ((framedMachine turns levels running).execBy
            ((framedMachine turns levels running).returnedFrom h running chain) turns chain s)
        | extra + 1 => (framedMachine turns levels running).execUnder extra chain s }

end

/-! ## Runs in frames -/

section

variable {X : Halt → Prop} {names running : List String} (hr : running ⊆ names) (h : Halt)
include hr

/-- A run that keeps what is known passes the checks of its frame. -/
theorem Run.TracksAt.inFrame {α : Type} {m m' : Run α} {s : Store} (hs : s.Knows names running)
    (hm : TracksAt (fun s t => t = s ∧ s.Knows names running) X m m' s s) :
    TracksAt (fun s t => t = s ∧ s.Knows names running) X m (Run.inFrame h running m') s s :=
  hm.guarded h fun ht => ⟨hs.inFrame hr, ht.inFrame hr⟩

theorem tracks_inFrame {α : Type} {m m' : Run α}
    (hm : Run.Tracks (fun s t => t = s ∧ s.Knows names running) X m m') :
    Run.Tracks (fun s t => t = s ∧ s.Knows names running) X m (Run.inFrame h running m') := by
  rintro _ s ⟨rfl, hs⟩
  exact TracksAt.inFrame hr h hs (hm s s ⟨rfl, hs⟩)

/-- A return finds in the store the call that its frame names. -/
theorem tracks_returnedFrom {m m' : Machine}
    (hm : m.Tracks (fun s t => t = s ∧ s.Knows names running) (· ≠ []) X m') {chain : Chain}
    (hc : chain ≠ []) (loc : Location) (value : Option Expr) :
    Run.Tracks (fun s t => t = s ∧ s.Knows names running) X (m.returned chain loc value)
      (m'.returnedFrom h running chain loc value) := by
  rintro _ s ⟨rfl, hs⟩
  refine TracksAt.get_left ?_
  rw [hs.calls]
  cases running with
  | nil => exact tracks_fail _ _ s s ⟨rfl, hs⟩
  | cons name outer =>
    cases value with
    | some e => exact (hm.under _).eval 0 hc e s s ⟨rfl, hs⟩
    | none =>
      have hname : (s.function? name).isSome := hs.functions name (hr List.mem_cons_self)
      obtain ⟨f, hf⟩ := Option.isSome_iff_exists.mp hname
      refine TracksAt.get_right ?_
      simp only [hf]
      exact tracks_zeroOf loc name f s s ⟨rfl, hs⟩

end

/-- **A machine runs as it does in its frame**, wherever the functions of the frame are
known. -/
theorem machine_tracks_framed (h : Halt) (turns : Nat) : ∀ (levels : Nat)
    {names running : List String}, running ⊆ names →
      (machine turns levels).Tracks (fun s t => t = s ∧ s.Knows names running) (· ≠ [])
        (fun _ => False) (framedMachine h turns levels running) := by
  intro levels
  induction levels with
  | zero =>
    intro names running _
    exact ⟨.refl _ _, fun _ _ _ _ => tracks_throw _, fun _ _ _ _ => tracks_throw _⟩
  | succ levels ih =>
    intro names running hr
    have hm := ih hr
    have hI := (Store.invariant_knows names running).law
    refine ⟨.refl _ _, fun n chain hc e => ?_, fun n chain hc s => ?_⟩
    · cases n with
      | succ n => exact hm.eval n hc e
      | zero =>
        refine tracks_inFrame hr h (tracks_evalBy hI hm hc ?_ e)
        rintro _ s ⟨rfl, hs⟩ loc name f hf given
        -- the function that is called is known too, until its call has ended
        have hknown : s.Knows (name :: names) running :=
          ⟨hs.calls, List.forall_mem_cons.mpr ⟨Option.isSome_of_eq_some hf, hs.functions⟩⟩
        have houter : running ⊆ name :: names := fun x hx => List.mem_cons_of_mem _ (hr hx)
        have hinner : name :: running ⊆ name :: names := List.cons_subset_cons name hr
        have hI' := (Store.invariant_knows (name :: names) (name :: running)).law
        have hcall := tracks_callDefinedBy (Store.invariant_knows (name :: names) running).law
          (ih houter)
          (fun hc stmts =>
            tracks_inFrame hinner h (tracks_block hI' ((ih hinner).under _) hc stmts))
          (fun h => ⟨by rw [h.1], h.2.push⟩) (fun h => ⟨by rw [h.1], h.2.pop⟩)
          (And.intro rfl hknown) loc hf given
        exact (TracksAt.inFrame houter h hknown hcall).imp fun u v huv =>
          ⟨huv.1, huv.2.calls, (List.forall_mem_cons.mp huv.2.functions).2⟩
    · cases n with
      | succ n => exact hm.exec n hc s
      | zero =>
        exact tracks_inFrame hr h
          (tracks_execBy hI hm hc (tracks_returnedFrom hr h hm hc) turns s)

namespace Session

/-! ## Steps of a session -/

/-- What is done with a session: a statement is parsed and run, or it is closed. -/
inductive Step
  | statement (text : PlacedText) (offset : Nat)
  | close

/-- The session after a step, however that has ended. -/
def take (s : Session) : Step → Session
  | .statement text offset => (s.perform text offset).2
  | .close => s.close

theorem reachable_foldl_take {s : Session} (hs : s.Reachable) (steps : List Step) :
    (steps.foldl take s).Reachable := by
  induction steps generalizing s with
  | nil => exact hs
  | cons step steps ih =>
    rw [List.foldl_cons]
    cases step with
    | statement text offset => exact ih (hs.perform text offset)
    | close => exact ih hs.close

/-- Every statement of a session in which no call is running runs as it does outside of
all frames. -/
theorem runBy_framed {s : Session} (hs : s.store.calls = []) (stmt : Stmt) (h : Halt) :
    runBy (framedMachine h s.limits.turns s.limits.levels []) s.store stmt
      = runStatement s.limits s.store stmt := by
  have hm := machine_tracks_framed h s.limits.turns s.limits.levels (List.nil_subset [])
  have hknown : s.store.counted.Knows [] [] := ⟨hs, nofun⟩
  have hexec := hm.exec 0 (List.cons_ne_nil 0 []) stmt _ _ (And.intro rfl hknown)
  obtain ⟨_, _, hfalse⟩ | ⟨hr, ht, -⟩ := hexec
  · exact hfalse.elim
  · have hsame : ((framedMachine h s.limits.turns s.limits.levels []).exec Store.globalChain
        stmt).run.run s.store.counted
        = ((machine s.limits.turns s.limits.levels).exec Store.globalChain stmt).run.run
          s.store.counted := Prod.ext hr ht
    rw [← runBy_machine, runBy, runBy, hsame]

/-- **The running calls are balanced, and every return finds its function.**  After any
steps of a session, however they have ended, no call is running.  The next statement runs
as in frames: wherever it evaluates, executes or calls anything, and wherever the body of
a function begins and ends, the running calls are those around it and each has a function
in the table; a return outside of all bodies is a fault, and inside of one it gives its
value to the call that runs the innermost of them, whose function it finds.  So neither a
missing function nor a returned value leaves the statement. -/
theorem calls_balanced (file : String) (limits : Limits) (steps : List Step) :
    let s := steps.foldl take ⟨file, limits, .initial⟩
    s.store.calls = [] ∧
    (∀ stmt h, runBy (framedMachine h s.limits.turns s.limits.levels []) s.store stmt
      = runStatement s.limits s.store stmt) ∧
    ∀ stmt, let result := (runStatement s.limits s.store stmt).1
      (∀ name, result ≠ .error (.escaped (.absent (.function name)))) ∧
        result ≠ .error (.escaped .returned) := by
  intro s
  obtain ⟨hsound, hcalls⟩ := (reachable_foldl_take (.new file limits) steps).sound
  refine ⟨hcalls, runBy_framed hcalls, fun stmt => ?_⟩
  have hends : (runStatement s.limits s.store stmt).1 = .error (.escaped .printTooLong) ∨
      Reported (runStatement s.limits s.store stmt).1 :=
    (runStatement_ends hsound hcalls stmt).imp And.right And.right
  rcases hends with he | hr
  · rw [he]
    exact ⟨nofun, nofun⟩
  · rcases hr.cases with he | ⟨_, _, he⟩ | he <;> rw [he] <;> exact ⟨nofun, nofun⟩

/-- A frame that is not there does not pass the checks. -/
example :
    let stmt : Stmt := .evaluate (.literal ⟨1, 1⟩ (.int 1))
    (runBy (framedMachine .unfinished 5 9 []) .initial stmt).1.isOk = true ∧
      (runBy (framedMachine .unfinished 5 9 ["F"]) .initial stmt).1.isOk = false := by
  decide +kernel

end Session

end SpanScript
